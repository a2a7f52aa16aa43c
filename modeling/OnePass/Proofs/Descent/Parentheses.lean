import OnePass.Proofs.Artifact.Layout
import OnePass.Proofs.Compiler.Blame
import OnePass.Proofs.Descent.Productions
import OnePass.Proofs.Token.Scanning

/-!
# Open parentheses

Whether a source has an open parenthesis is told by counting its tokens. Generation counts nothing:
it has a task before it for each parenthesis that is still to be closed. At every moment there are
as many of these tasks as parentheses were opened and not closed by the tokens read so far; so both
agree where all tokens were read.
-/

set_option autoImplicit false

namespace OnePass

open Generate
open Grammar (Derivation sentence)

def Lexeme.parens : Lexeme → Int
  | .leftParen => 1
  | .rightParen => -1
  | _ => 0

def balance : List Lexeme → Int
  | [] => 0
  | l :: ls => l.parens + balance ls

theorem balance_append (ls ls' : List Lexeme) : balance (ls ++ ls') = balance ls + balance ls' := by
  induction ls with
  | nil => exact (Int.zero_add _).symm
  | cons l ls ih =>
    rw [List.cons_append, balance, balance, ih]
    omega

theorem foldl_parens {f : Int → Token → Int} (hf : ∀ n t, f n t = n + t.lexeme.parens)
    (tokens : List Token) (n : Int) :
    tokens.foldl f n = n + balance (tokens.map Token.lexeme) := by
  induction tokens generalizing n with
  | nil => exact (Int.add_zero n).symm
  | cons t tokens ih =>
    rw [List.foldl_cons, ih, hf, List.map_cons, balance]
    omega

theorem hasOpenParen_iff (source : Text) :
    hasOpenParen source = true ↔ 0 < balance (sentence (tokenize source)) := by
  have hcount : hasOpenParen source =
      decide (0 < 0 + balance ((tokenize source).map Token.lexeme)) := by
    unfold hasOpenParen
    rw [foldl_parens]
    intro n t
    cases t.lexeme with
    | leftParen | rightParen => rfl
    | _ => exact (Int.add_zero n).symm
  rw [hcount, Grammar.sentence_tokenize, balance_append, decide_eq_true_iff]
  change 0 < 0 + (balance (sentence (tokenize source)) + 0) ↔ _
  omega

/-- In a derivation every parenthesis is closed. -/
theorem balance_lexemes {c : Grammar.Category} (d : Derivation c) : balance d.lexemes = 0 := by
  induction d with
  | literal x => cases x <;> rfl
  | parens d ih =>
    rw [Derivation.lexemes, balance, balance_append, ih]
    rfl
  | atom d ih | factor d ih | term d ih => exact ih
  | sign s d ih =>
    rw [Derivation.lexemes, balance, ih]
    cases s <;> rfl
  | multiply a o b iha ihb =>
    rw [Derivation.lexemes, balance_append, balance, iha, ihb]
    cases o <;> rfl
  | add a o b iha ihb =>
    rw [Derivation.lexemes, balance_append, balance, iha, ihb]
    cases o <;> rfl

theorem tokensFrom_empty_iff (skip line column : Nat) (source : Text) :
    ∀ t ∈ tokensFrom skip line column source,
      t.lexeme = .endOfInput ↔ t.location.length = 0 := by
  fun_induction tokensFrom skip line column source with
  | case1 => simp
  | case2 | case3 | case4 =>
    rename_i ih
    exact ih
  | case5 line column b rest _ _ lexeme length hscan ih =>
    refine List.forall_mem_cons.2 ⟨?_, ih⟩
    have hs := Lexeme.scanned_scan b rest
    have hl := Lexeme.length_scan b rest
    rw [hscan] at hs hl
    have hne := hs.ne_endOfInput
    simp only [hne, false_iff]
    omega

namespace Descent

open Config (Reaches)

def closing : List Task → Nat
  | [] => 0
  | .close _ :: tasks => closing tasks + 1
  | _ :: tasks => closing tasks

theorem closing_append (tasks rest : List Task) :
    closing (tasks ++ rest) = closing tasks + closing rest := by
  induction tasks with
  | nil => exact (Nat.zero_add _).symm
  | cons task tasks ih =>
    cases task with
    | close =>
      simp only [List.cons_append, closing, ih]
      omega
    | _ => exact ih

theorem closing_moves (ms : List Move) : closing (ms.map .move) = 0 := by
  induction ms with
  | nil => rfl
  | cons m ms ih => exact ih

theorem closing_pos_iff {tasks : List Task} :
    0 < closing tasks ↔ ∃ opening, .close opening ∈ tasks := by
  induction tasks with
  | nil => simp [closing]
  | cons task tasks ih =>
    cases task with
    | close opening => exact ⟨fun _ => ⟨opening, List.mem_cons_self⟩, fun _ => Nat.succ_pos _⟩
    | _ => simp [closing, ih]

/-- What a step reads: as many parentheses are opened by the lexemes read as are then to be closed.
A step that blames a token blames the next one. -/
def Reads {α : Type} (before : Nat) (after : α → Nat) (g : Generator) :
    EStateM.Result Diagnostic Generator α → Prop
  | .ok a g' => ∃ ls, g.Past ls g' ∧ .endOfInput ∉ ls ∧ before + balance ls = after a
  | .error d _ => d.cause = .grammar → d.location = g.next.location

theorem Reads.of_still {m : Generate Diagnostic Unit} (h : Still Blameless m) (g : Generator) :
    Reads 0 (fun _ => 0) g (m g) := by
  have hg := h g
  cases hm : m g with
  | ok u g' =>
    rw [hm] at hg
    exact ⟨[], (Generator.Past.refl g).still hg.1 hg.2, List.not_mem_nil, rfl⟩
  | error d g' =>
    rw [hm] at hg
    intro hd
    exact absurd hd hg

theorem Move.reads (l : Linkage) (m : Move) (g : Generator) :
    Reads 0 (fun _ => 0) g (m.run l g) := by
  cases m with
  | act a => exact .of_still (.act a) g
  | push ty => exact .of_still (push_still _ l ty) g
  | popInt register => exact .of_still (popInt_still register).balanced g
  | popFloat register => exact .of_still (popFloat_still register).balanced g
  | popAsFloat freg reg => exact .of_still (popAsFloat_still freg reg).balanced g
  | call r location => exact .of_still (callRoutine_still l r location) g
  | validate expected label => exact .of_still (validate_still expected label).balanced g
  | atEnd =>
    show Reads 0 (fun _ => 0) g (Generate.atEnd g)
    by_cases hend : g.next.lexeme = .endOfInput
    · have hat : Generate.atEnd g = .ok () g := by
        rw [Generate.atEnd, peek_bind, hend]
        rfl
      rw [hat]
      exact ⟨[], .refl g, List.not_mem_nil, rfl⟩
    · obtain ⟨d, hat, hloc⟩ := atEnd_blames hend
      rw [hat]
      exact fun _ => hloc

def Opening.Tells (token : Token) : Opening → Prop
  | .fault d => d.location = token.location
  | .parenthesis => token.lexeme ≠ .endOfInput ∧ token.lexeme.parens = 1
  | _ => token.lexeme ≠ .endOfInput ∧ token.lexeme.parens = 0

theorem opening_tells (l : Linkage) (token : Token) : (opening l token).Tells token := by
  unfold opening
  cases hl : token.lexeme with
  | word name => exact location_unknownWord name token.location
  | plus | minus | leftParen | null | bool | int | float | string =>
    simp only [Opening.Tells, hl]
    exact ⟨by simp, rfl⟩
  | _ => rfl

theorem operator?_parens {r : Rank} {x : Lexeme} {op : Operator} (h : r.operator? x = some op) :
    x ≠ .endOfInput ∧ x.parens = 0 := by
  cases r <;> cases x <;> cases h <;> exact ⟨by simp, rfl⟩

theorem Reads.of_advance {α : Type} {before : Nat} {after : α → Nat} {g g' : Generator} {a : α}
    (h : g.next.lexeme ≠ .endOfInput) (hr : g'.rest = g.advance.rest)
    (hf : g'.finish = g.advance.finish) (hp : before + g.next.lexeme.parens = after a) :
    Reads before after g (.ok a g') := by
  refine ⟨[g.next.lexeme], (Generator.Past.advance rfl h).still hr hf, ?_, ?_⟩
  · rw [List.mem_singleton]
    exact h.symm
  · simp only [balance, Int.add_zero, hp]

theorem Reads.of_eq {α : Type} {before : Nat} {after : α → Nat} {g g' : Generator} {a : α}
    (hr : g'.rest = g.rest) (hf : g'.finish = g.finish) (hp : before = after a) :
    Reads before after g (.ok a g') :=
  ⟨[], (Generator.Past.refl g).still hr hf, List.not_mem_nil, by rw [hp]; exact Int.add_zero _⟩

theorem reads_enter {g : Generator} {new : List Task} (ty : Ty) (h : g.next.lexeme ≠ .endOfInput)
    (hp : g.next.lexeme.parens = closing new) :
    Reads 0 (fun r => closing r.1) g ((do
      enter g.next.location
      return (new, ty) : Generate Diagnostic (List Task × Ty)) g.advance) := by
  by_cases hroom : g.advance.nesting < maxNesting
  · rw [enter_of_room _ _ hroom]
    exact .of_advance h rfl rfl (by rw [hp]; exact Int.zero_add _)
  · rw [enter_too_deep _ _ hroom]
    exact fun _ => rfl

theorem Task.reads_unary (l : Linkage) (ty : Ty) (g : Generator) :
    Reads 0 (fun r => closing r.1) g (Task.unary.run l ty g) := by
  have htells := opening_tells l g.next
  rw [Task.run_unary]
  generalize opening l g.next = o at htells ⊢
  cases o with
  | sign op => exact reads_enter ty htells.1 htells.2
  | parenthesis => exact reads_enter ty htells.1 htells.2
  | literal load t => exact .of_advance htells.1 rfl rfl (by rw [htells.2]; rfl)
  | fault d => exact fun _ => htells

/-- What every task reads. -/
theorem Task.reads (l : Linkage) (task : Task) (ty : Ty) (g : Generator) :
    Reads (closing [task]) (fun r => closing r.1) g (task.run l ty g) := by
  have hblameless : ∀ {d : Diagnostic} {g' : Generator}, d.cause ≠ .grammar →
      Reads (closing [task]) (fun r : List Task × Ty => closing r.1) g (.error d g') :=
    fun hd hcause => absurd hcause hd
  -- Only `unary` opens a parenthesis, and it brings the task that closes it.
  cases task with
  | unary => exact reads_unary l ty g
  | level r =>
    rw [Task.run, peek_bind]
    cases hop : r.operator? g.next.lexeme with
    | none => exact .of_eq rfl rfl rfl
    | some op =>
      obtain ⟨hne, hp⟩ := operator?_parens hop
      refine .of_advance hne rfl rfl ?_
      rw [hp]
      cases r <;> rfl
  | operator op location left =>
    rw [Task.run]
    cases op.promote left ty with
    | error fault => exact hblameless (by simp [Diagnostic.ofTypes])
    | ok promoted =>
      refine .of_eq rfl rfl ?_
      rw [closing_append, closing_moves]
      rfl
  | sign op location =>
    rw [Task.run]
    cases op.unaryResult ty with
    | error fault => exact hblameless (by simp [Diagnostic.ofTypes])
    | ok result =>
      refine .of_eq rfl rfl ?_
      rw [closing_append, closing_moves]
      rfl
  | close opening =>
    rw [Task.run, peek_bind]
    by_cases hc : g.next.lexeme = .rightParen
    · rw [if_pos hc]
      exact .of_advance (by rw [hc]; simp) rfl rfl (by rw [hc]; rfl)
    · rw [if_neg hc]
      exact fun _ => rfl
  | leave => exact .of_eq rfl rfl rfl
  | move m =>
    have hm := m.reads l g
    simp only [Task.run, Bind.bind, EStateM.bind]
    generalize m.run l g = r at hm
    cases r with
    | ok u g' => exact hm
    | error d g' => exact hm
  | yield t => exact .of_eq rfl rfl rfl
  | finish =>
    refine .of_eq rfl rfl ?_
    rw [closing_moves]
    rfl

/-- As long as nothing fails, there are as many parentheses to close as were left open by what was
read. -/
def Config.Counted (tokens : List Token) (c : Config) : Prop :=
  c.failure = none → ∃ ls, (Generator.start tokens).Past ls c.generator ∧ .endOfInput ∉ ls ∧
    balance ls = closing c.tasks

theorem Config.counted_start (tokens : List Token) : (start tokens).Counted tokens :=
  fun _ => ⟨[], .refl _, List.not_mem_nil, rfl⟩

theorem Config.Counted.step {l : Linkage} {tokens : List Token} {c c' : Config}
    (h : c.step l = some c') (hc : c.Counted tokens) : c'.Counted tokens := by
  unfold Config.step at h
  split at h
  · rename_i task rest hf ht
    have hreads := task.reads l c.type c.generator
    obtain ⟨ls, hpast, hls, hcount⟩ := hc hf
    have htasks : closing (task :: rest) = closing [task] + closing rest :=
      closing_append [task] rest
    rw [ht, htasks] at hcount
    split at h
    · rename_i new ty g hrun
      cases h
      rw [hrun] at hreads
      obtain ⟨ls', hpast', hls', hcount'⟩ := hreads
      replace hcount' : (closing [task] : Int) + balance ls' = closing new := hcount'
      intro _
      refine ⟨ls ++ ls', hpast.trans hpast', ?_, ?_⟩
      · rw [List.mem_append]
        exact not_or.2 ⟨hls, hls'⟩
      · rw [balance_append, closing_append]
        omega
    · cases h
      intro hnone
      cases hnone
  · cases h
    intro hnone
    cases hnone
  · cases h

theorem Config.Reaches.counted {l : Linkage} {tokens : List Token} {c : Config}
    (h : Reaches l (.start tokens) c) : c.Counted tokens :=
  h.keeps (fun _ _ => Counted.step) (counted_start tokens)

def Config.FailsWith (l : Linkage) (c : Config) (d : Diagnostic) : Prop :=
  c.failure = none ∧ ∃ c', c.step l = some c' ∧ c'.failure = some d

theorem Config.FailsWith.location {l : Linkage} {c : Config} {d : Diagnostic}
    (h : c.FailsWith l d) (hd : d.cause = .grammar) :
    d.location = c.generator.next.location := by
  obtain ⟨hnone, c', hstep, hfail⟩ := h
  unfold Config.step at hstep
  rw [hnone] at hstep
  split at hstep
  · rename_i task rest hf ht
    have hreads := task.reads l c.type c.generator
    split at hstep
    · cases hstep
      cases hfail
    · rename_i d' g hrun
      cases hstep
      cases hfail
      rw [hrun] at hreads
      exact hreads hd
  · rename_i hsome _
    cases hsome
  · cases hstep

theorem Config.Reaches.failure_eq {l : Linkage} {c c' : Config} {d : Diagnostic}
    (h : Reaches l c c') (hc : c.failure = some d) : c'.failure = some d := by
  refine h.keeps (P := fun x => x.failure = some d) (fun x x' hstep hx => ?_) hc
  obtain ⟨_, _, -, ⟨_, _, _, hnone, -⟩ | ⟨_, _, hnone, -⟩ | ⟨_, hsome, rfl⟩⟩ := step_cases hstep
  · cases hnone.symm.trans hx
  · cases hnone.symm.trans hx
  · exact hsome.symm.trans hx

/-- A machine that has failed did so in some step. -/
theorem Config.Reaches.exists_failsWith {l : Linkage} {c c' : Config} {d : Diagnostic}
    (h : Reaches l c c') (hc : c.failure = none) (hd : c'.failure = some d) :
    ∃ b, Reaches l c b ∧ b.FailsWith l d := by
  induction h with
  | refl c =>
    rw [hc] at hd
    cases hd
  | @head c b c' first rest ih =>
    cases hb : b.failure with
    | none =>
      obtain ⟨e, hreaches, hfails⟩ := ih hb hd
      exact ⟨e, .head first hreaches, hfails⟩
    | some d' =>
      have hsame : c'.failure = some d' := rest.failure_eq hb
      cases hsame.symm.trans hd
      exact ⟨c, .refl c, hc, b, first, hb⟩

/-- A machine that fails at the end of input has read everything. -/
theorem Config.FailsWith.balance_eq {l : Linkage} {source : Text} {c : Config} {d : Diagnostic}
    (h : c.FailsWith l d) (hreaches : Reaches l (.start (tokenize source)) c)
    (hd : d.cause = .grammar) (hend : d.location.length = 0) :
    balance (sentence (tokenize source)) = closing c.tasks := by
  have hloc := h.location hd
  obtain ⟨ls, ⟨taken, hrest, hls, -⟩, hnot, hcount⟩ := hreaches.counted h.1
  replace hrest : tokenize source = taken ++ c.generator.rest := hrest
  have hnext : (c.generator.rest.map Token.lexeme).headD .endOfInput = .endOfInput := by
    rw [hloc, Generator.next] at hend
    cases hr : c.generator.rest with
    | nil => rfl
    | cons token rest =>
      rw [hr] at hend hrest
      have hmem : token ∈ tokenize source := by simp [hrest]
      exact (tokensFrom_empty_iff 0 1 1 source token hmem).2 hend
  have hall : sentence (tokenize source) = ls := by
    rw [hrest, Grammar.sentence_append _ (hls ▸ hnot), Grammar.sentence_of_head hnext, hls,
      List.append_nil]
  rw [hall, hcount]

end Descent

theorem Diagnostic.withSource_keeps (d : Diagnostic) (source : Text) :
    (d.withSource source).cause = d.cause ∧ (d.withSource source).location = d.location := by
  unfold withSource
  split <;> exact ⟨rfl, rfl⟩

namespace Artifact

variable {arch : Arch} {symbols : Symbols} {sizes : RegionSizes} {source : Text}
  {verbose : Bool}

theorem exists_derivation {a : Artifact}
    (h : (compile arch symbols sizes source verbose).outcome = .ok a) :
    ∃ d : Derivation .expression, d.lexemes = sentence (tokenize source) := by
  cases ha : arch.target? with
  | none =>
    rw [compile, ha] at h
    cases h
  | some target =>
    rw [compile_outcome ha rfl, compileTokens_outcome] at h
    cases hg : function ⟨target.roles, symbols⟩ (.start (tokenize source)) with
    | error d g =>
      rw [hg] at h
      cases h
    | ok t g =>
      obtain ⟨d, hd, -⟩ := function_inv hg
      exact ⟨d, hd⟩

theorem exists_generation_error {e : Diagnostic}
    (h : (compile arch symbols sizes source verbose).outcome = .error (.diagnostic e))
    (he : e.cause = .grammar) :
    ∃ target d g, arch.target? = some target ∧ e = d.withSource source ∧
      function ⟨target.roles, symbols⟩ (.start (tokenize source)) = .error d g := by
  cases ha : arch.target? with
  | none =>
    rw [compile, ha] at h
    cases h
  | some target =>
    rw [compile_outcome ha rfl] at h
    generalize hc : compileTokens target symbols (tokenize source) _ _ verbose = c at h
    cases ho : c.outcome with
    | ok t =>
      rw [ho] at h
      cases h
    | error d =>
      rw [ho] at h
      cases h
      rw [← hc] at ho
      refine ⟨target, d, ?_⟩
      cases hg : function ⟨target.roles, symbols⟩ (.start (tokenize source)) with
      | ok t g =>
        obtain ⟨f, rfl⟩ := buffer_of_generated hg ho
        rw [(Diagnostic.withSource_keeps _ source).1] at he
        cases he
      | error d' g =>
        rw [compileTokens_outcome, hg] at ho
        cases ho
        exact ⟨g, rfl, rfl, rfl⟩

end Artifact

def diagnosticOf? {α : Type} : Except Error α → Option Diagnostic
  | .error (.diagnostic d) => some d
  | _ => none

theorem eq_error_of_diagnosticOf? {α : Type} {r : Except Error α} {d : Diagnostic}
    (h : diagnosticOf? r = some d) : r = .error (.diagnostic d) := by
  cases r with
  | ok a => cases h
  | error e =>
    cases e <;> cases h
    rfl

section Agreement

open Descent

/-- The count of parentheses agrees with compilation. A source that is a sentence, as every source
is that can be compiled, has no open parenthesis. Where compilation blames the end of input, there
is a moment at which generation fails so; and at that moment a parenthesis is still to be closed
exactly when the source has an open one. -/
theorem hasOpenParen_agrees_with_compilation (arch : Arch) (symbols : Symbols) (sizes : RegionSizes)
    (source : Text) (verbose : Bool) :
    ((∃ d : Derivation .expression, d.lexemes = sentence (tokenize source)) →
      hasOpenParen source = false) ∧
    (∀ a, (Artifact.compile arch symbols sizes source verbose).outcome = .ok a →
      hasOpenParen source = false) ∧
    ∀ e, (Artifact.compile arch symbols sizes source verbose).outcome = .error (.diagnostic e) →
      e.cause = .grammar →
      (∃ token ∈ tokenize source, token.lexeme = .endOfInput ∧ e.location = token.location) →
      ∃ target d, arch.target? = some target ∧ e = d.withSource source ∧
        (∃ c, Config.Reaches ⟨target.roles, symbols⟩ (.start (tokenize source)) c ∧
          c.FailsWith ⟨target.roles, symbols⟩ d) ∧
        ∀ c, Config.Reaches ⟨target.roles, symbols⟩ (.start (tokenize source)) c →
          c.FailsWith ⟨target.roles, symbols⟩ d →
          (hasOpenParen source = true ↔ ∃ opening, .close opening ∈ c.tasks) := by
  have hsentence : (∃ d : Derivation .expression, d.lexemes = sentence (tokenize source)) →
      hasOpenParen source = false := by
    rintro ⟨d, hd⟩
    rw [Bool.eq_false_iff, ne_eq, hasOpenParen_iff, ← hd, balance_lexemes]
    exact Int.lt_irrefl 0
  refine ⟨hsentence, fun a ha => hsentence (Artifact.exists_derivation ha), ?_⟩
  rintro e he hcause ⟨token, hmem, hlex, hloc⟩
  obtain ⟨target, d, g, ha, rfl, hg⟩ := Artifact.exists_generation_error he hcause
  obtain ⟨hkeepsCause, hkeepsLocation⟩ := d.withSource_keeps source
  rw [hkeepsCause] at hcause
  have hend : d.location.length = 0 := by
    rw [← hkeepsLocation, hloc]
    exact (tokensFrom_empty_iff 0 1 1 source token hmem).1 hlex
  refine ⟨target, d, ha, rfl, ?_, ?_⟩
  · obtain ⟨last, hreaches, -, hresult⟩ := Config.ends ⟨target.roles, symbols⟩ (tokenize source)
    have hfailed : last.failure = some d := by
      rw [hg, Config.result] at hresult
      cases hl : last.failure with
      | none =>
        rw [hl] at hresult
        cases hresult
      | some d' =>
        rw [hl] at hresult
        cases hresult
        rfl
    exact hreaches.exists_failsWith rfl hfailed
  · intro c hreaches hfails
    have hbalance := hfails.balance_eq hreaches hcause hend
    rw [hasOpenParen_iff, hbalance, ← closing_pos_iff]
    exact Int.natCast_pos

/-- "('(' + ('a')" ends too early. The parenthesis in the literal does not count, and the last one
is closed; the first one is still to be closed where generation fails. -/
theorem unfinished_join_has_open_paren :
    ∃ e d c, (Artifact.compile .x86 Artifact.placeholders { code := 512, data := 64 }
        (utf8 "('(' + ('a')")).outcome = .error (.diagnostic e) ∧
      e.cause = .grammar ∧ e.location = ⟨1, 13, 0⟩ ∧ e = d.withSource (utf8 "('(' + ('a')") ∧
      Config.Reaches ⟨X86.target.roles, Artifact.placeholders⟩
        (.start (tokenize (utf8 "('(' + ('a')"))) c ∧
      c.FailsWith ⟨X86.target.roles, Artifact.placeholders⟩ d ∧
      (∃ opening, .close opening ∈ c.tasks) ∧ hasOpenParen (utf8 "('(' + ('a')") = true := by
  have hkind : (diagnosticOf? (Artifact.compile .x86 Artifact.placeholders
      { code := 512, data := 64 } (utf8 "('(' + ('a')")).outcome).any
      (fun e => e.cause = .grammar ∧ e.location = ⟨1, 13, 0⟩) = true := by
    decide +kernel
  obtain ⟨e, he, hblame⟩ := (Option.any_eq_true _ _).1 hkind
  obtain ⟨hcause, hloc⟩ := of_decide_eq_true hblame
  have hout := eq_error_of_diagnosticOf? he
  have hend : ⟨.endOfInput, ⟨1, 13, 0⟩⟩ ∈ tokenize (utf8 "('(' + ('a')") := by decide +kernel
  have hopen : hasOpenParen (utf8 "('(' + ('a')") = true := by decide +kernel
  obtain ⟨-, -, hagrees⟩ := hasOpenParen_agrees_with_compilation .x86 Artifact.placeholders
    { code := 512, data := 64 } (utf8 "('(' + ('a')") true
  obtain ⟨target, d, ⟨⟩, hsource, ⟨c, hreaches, hfails⟩, hiff⟩ :=
    hagrees e hout hcause ⟨_, hend, rfl, hloc⟩
  exact ⟨e, d, c, hout, hcause, hloc, hsource, hreaches, hfails, (hiff c hreaches hfails).1 hopen,
    hopen⟩

end Agreement

end OnePass
