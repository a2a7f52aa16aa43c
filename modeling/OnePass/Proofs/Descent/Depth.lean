import OnePass.Artifact.Basic
import OnePass.Proofs.Compiler.Capacity
import OnePass.Proofs.Descent.Productions

/-!
# How deep the operand stack gets

An open parenthesis can hold up two operands before it, one of a sum and one of a product; a pending
sign holds up none, but is a level of nesting too. On the innermost level two more operands can wait
for the one that is being read. So the stack is at most three deeper than twice the nesting, at
every moment of generation until it fails, and a limit on the nesting limits the native stack,
however long an expression is. No smaller limit holds. A failure leaves the open levels, but not the
stack.
-/

set_option autoImplicit false

namespace OnePass

open Generate

namespace Descent

/-- How far a stack may exceed twice the nesting when operators of a precedence may follow. -/
def Rank.room : Rank → Nat
  | .sum => 1
  | .product => 2

/-- Whether tasks may lie before the machine when the stack is so deep. The levels that are open at
a task are those that it and the tasks behind it will leave. -/
def Within : List Task → Nat → Prop
  | [], n => n ≤ 3
  | .unary :: tasks, n => n + 1 ≤ 2 * levels tasks + 3 ∧ Within tasks (n + 1)
  | .level r :: tasks, n => 1 ≤ n ∧ n ≤ 2 * levels tasks + r.room ∧ Within tasks n
  | .operator .. :: tasks, n => 2 ≤ n ∧ n ≤ 2 * levels tasks + 3 ∧ Within tasks (n - 1)
  | .sign .. :: tasks, n => 1 ≤ n ∧ Within tasks n
  | .close _ :: tasks, n | .leave :: tasks, n | .yield _ :: tasks, n => Within tasks n
  | .move m :: tasks, n => n ≤ 2 * levels tasks + 3 ∧ Within tasks (m.depth n)
  | .finish :: tasks, n => 1 ≤ n ∧ n ≤ 2 * levels tasks + 3 ∧ Within tasks (n - 1)

theorem Within.depth_le {tasks : List Task} {n : Nat} (h : Within tasks n) :
    n ≤ 2 * levels tasks + 3 := by
  induction tasks generalizing n with
  | nil => exact h
  | cons task tasks ih =>
    cases task with
    | unary => exact Nat.le_of_lt h.1
    | level r =>
      obtain ⟨-, hn, -⟩ := h
      cases r <;> simp only [Rank.room] at hn <;> simp only [levels] <;> omega
    | operator | finish => exact h.2.1
    | sign => exact ih h.2
    | close | yield => exact ih (n := n) h
    | leave =>
      have hn := ih (n := n) h
      simp only [levels]
      omega
    | move m => exact h.1

/-- A move fits where the stack is not too deep before it and the tasks behind it fit. -/
theorem Within.move {m : Move} {tasks : List Task} {n : Nat} (hn : n ≤ 2 * levels tasks + 3)
    (h : Within tasks (m.depth n)) : Within (.move m :: tasks) n :=
  ⟨hn, h⟩

theorem Within.neutral {m : Move} {tasks : List Task} {n : Nat} (hm : m.depth n = n)
    (h : Within tasks n) : Within (.move m :: tasks) n :=
  .move h.depth_le (hm.symm ▸ h)

theorem Within.moves {ms : List Move} {tasks : List Task} {n : Nat}
    (hms : ∀ m ∈ ms, m.depth n = n) (h : Within tasks n) : Within (ms.map .move ++ tasks) n := by
  induction ms with
  | nil => exact h
  | cons m ms ih =>
    have hrest := ih fun m' hm' => hms m' (List.mem_cons_of_mem m hm')
    exact hrest.neutral (hms m List.mem_cons_self)

theorem depth_of_mem_computeMoves {l : Linkage} {c : Coercion} {op : Operator} {location : Location}
    {m : Move} (h : m ∈ computeMoves l c op location) (n : Nat) : m.depth n = n := by
  unfold computeMoves at h
  cases hr : c.routine? op with
  | none =>
    rw [hr] at h
    cases c <;> cases List.mem_singleton.1 h <;> rfl
  | some r =>
    rw [hr] at h
    simp only [List.mem_cons, List.not_mem_nil, or_false] at h
    rcases h with rfl | rfl
    · rfl
    · cases r <;> rfl

theorem within_operandMoves {l : Linkage} {c : Coercion} {tasks : List Task} {n : Nat}
    (hn : n + 2 ≤ 2 * levels tasks + 3) (h : Within tasks n) :
    Within ((operandMoves l c).map .move ++ tasks) (n + 2) := by
  have hn' : n + 1 ≤ 2 * levels tasks + 3 := by omega
  cases c <;> exact .move hn (.move hn' h)

theorem within_binaryMoves {l : Linkage} {op : Operator} {location : Location}
    {left right result : Ty} {c : Coercion} {tasks : List Task} {n : Nat}
    (hn : n + 2 ≤ 2 * levels tasks + 3) (h : Within tasks (n + 1)) :
    Within ((binaryMoves l op location left right result c).map .move ++ tasks) (n + 2) := by
  have hpush : Within (.move (.push result) :: tasks) n := .move (by omega) h
  have hneutral : ∀ m ∈ computeMoves l c op location, m.depth n = n := fun m hm =>
    depth_of_mem_computeMoves hm n
  have hcompute := hpush.moves hneutral
  have hlevels :
      levels ((computeMoves l c op location).map .move ++ .move (.push result) :: tasks) =
      levels tasks := by
    rw [levels_append, levels_moves, Nat.zero_add]
    rfl
  have hoperands := within_operandMoves (l := l) (c := c) (hlevels ▸ hn) hcompute
  have hall := hoperands.neutral (m := .act (.note (.combined left op right result c))) rfl
  simpa [binaryMoves] using hall

theorem within_signMoves {l : Linkage} {op : Operator} {operand result : Ty} {tasks : List Task}
    {n : Nat} (h : Within tasks (n + 1)) :
    Within ((signMoves l op operand result).map .move ++ tasks) (n + 1) := by
  have hn := h.depth_le
  have hpush : Within (.move (.push result) :: tasks) n := .move (by omega) h
  unfold signMoves
  split
  · exact h
  · split
    · exact .move hn (hpush.neutral rfl)
    · split
      · exact .move hn (hpush.neutral rfl)
      · exact .move hn (hpush.neutral rfl)

theorem within_finishMoves {l : Linkage} {ty : Ty} {tasks : List Task} {n : Nat}
    (hn : n + 1 ≤ 2 * levels tasks + 3) (h : Within tasks n) :
    Within ((finishMoves l ty).map .move ++ tasks) (n + 1) := by
  have hempty : Within (.move (.validate 0 (utf8 "epilogue")) ::
      .move (.act (.operation .epilogue)) :: tasks) n := (h.neutral rfl).neutral rfl
  unfold finishMoves
  cases ty.isFloat with
  | true => exact .neutral rfl (.neutral rfl (.move (m := .popFloat _) hn hempty))
  | false => exact .neutral rfl (.neutral rfl (.move (m := .popInt _) hn hempty))

/-- What a task brings fits in its place. -/
theorem Task.Does.within {l : Linkage} {task : Task} {ty ty' : Ty} {g g' : Generator}
    {new rest : List Task} (h : task.Does l ty g (.ok (new, ty') g'))
    (hw : Within (task :: rest) g.stack.depth) : Within (new ++ rest) g'.stack.depth := by
  cases h with
  | sign op location room =>
    obtain ⟨hn, hrest⟩ := hw
    rw [show g.advance.down.stack = g.stack from g.stack_advance]
    show Within (.unary :: .sign op location :: .leave :: rest) g.stack.depth
    simp only [Within, levels]
    exact ⟨by omega, by omega, hrest⟩
  | parenthesis location room =>
    obtain ⟨hn, hrest⟩ := hw
    rw [show g.advance.down.stack = g.stack from g.stack_advance]
    show Within (.unary :: .level .product :: .level .sum :: .close location :: .leave :: rest)
      g.stack.depth
    -- One level more allows two operands more, just what the operators inside can hold up.
    simp only [Within, levels, Rank.room]
    exact ⟨by omega, by omega, by omega, by omega, by omega, hrest⟩
  | literal load t =>
    obtain ⟨hn, hrest⟩ := hw
    rw [g.stack_advance]
    exact .neutral rfl (.move (Nat.le_of_lt hn) hrest)
  | stop r => exact hw.2.2
  | go r op location =>
    obtain ⟨hpos, hn, hrest⟩ := hw
    rw [g.stack_advance]
    cases r with
    | sum =>
      show Within (.unary :: .level .product :: .operator op location ty :: .level .sum :: rest)
        g.stack.depth
      simp only [Within, levels, Rank.room] at hn ⊢
      exact ⟨by omega, by omega, by omega, by omega, by omega, by omega, by omega, hrest⟩
    | product =>
      show Within (.unary :: .operator op location ty :: .level .product :: rest) g.stack.depth
      simp only [Within, levels, Rank.room] at hn ⊢
      exact ⟨by omega, by omega, by omega, by omega, by omega, hrest⟩
  | combine op location left result c =>
    obtain ⟨htwo, hn, hrest⟩ := hw
    obtain ⟨n, hd⟩ : ∃ n, g.stack.depth = n + 2 := ⟨_, (Nat.sub_add_cancel htwo).symm⟩
    rw [hd] at hn hrest ⊢
    rw [List.append_assoc]
    exact within_binaryMoves hn hrest
  | change op location result =>
    obtain ⟨hpos, hrest⟩ := hw
    obtain ⟨n, hd⟩ : ∃ n, g.stack.depth = n + 1 := ⟨_, (Nat.sub_add_cancel hpos).symm⟩
    rw [hd] at hrest ⊢
    rw [List.append_assoc]
    exact within_signMoves hrest
  | close opening =>
    rw [g.stack_advance]
    exact hw
  | leave => exact hw
  | move moved =>
    rw [moved.depth]
    exact hw.2
  | yield t => exact hw
  | finish =>
    obtain ⟨hpos, hn, hrest⟩ := hw
    obtain ⟨n, hd⟩ : ∃ n, g.stack.depth = n + 1 := ⟨_, (Nat.sub_add_cancel hpos).symm⟩
    rw [hd] at hn hrest ⊢
    exact within_finishMoves hn hrest

/-- The stack was never deeper than it was before a task or is after it. -/
theorem Task.Does.maxDepth_le {l : Linkage} {task : Task} {ty : Ty} {g : Generator}
    {r : EStateM.Result Diagnostic Generator (List Task × Ty)} (h : task.Does l ty g r) :
    (ending r).stack.maxDepth ≤ max g.stack.maxDepth (ending r).stack.depth := by
  cases h with
  | move moved | stumble _ _ moved =>
    simp only [ending, moved.depth]
    exact moved.maxDepth
  | sign | parenthesis | tooDeep | literal | unreadable | go | close =>
    simp only [ending, Generator.down, Generator.stack_advance]
    exact Nat.le_max_left ..
  | _ => exact Nat.le_max_left ..

theorem Task.Does.nesting_le {l : Linkage} {task : Task} {ty ty' : Ty} {g g' : Generator}
    {new : List Task} (h : task.Does l ty g (.ok (new, ty') g')) (hn : g.nesting ≤ maxNesting) :
    g'.nesting ≤ maxNesting := by
  cases h with
  | sign _ _ room | parenthesis _ room =>
    simp only [Generator.down, Generator.nesting_advance]
    exact room
  | literal | go | close => rwa [g.nesting_advance]
  | leave => exact Nat.le_trans (Nat.sub_le ..) hn
  | move moved => rwa [moved.nesting]
  | stop | combine | change | yield | finish => exact hn

/-- A task that fails pushes nothing and leaves no level. -/
theorem Task.Does.fails {l : Linkage} {task : Task} {ty : Ty} {g g' : Generator} {d : Diagnostic}
    (h : task.Does l ty g (.error d g')) :
    g'.stack.depth ≤ g.stack.depth ∧ g.nesting ≤ g'.nesting := by
  cases h with
  | tooDeep | unreadable => simp [Generator.down]
  | refuse => exact ⟨Nat.le_refl _, Nat.le_refl _⟩
  | stumble _ depth moved =>
    rw [moved.depth, moved.nesting]
    exact ⟨by omega, Nat.le_refl _⟩

/-- One push or one pop at a time. -/
theorem Task.Does.depth_near {l : Linkage} {task : Task} {ty : Ty} {g : Generator}
    {r : EStateM.Result Diagnostic Generator (List Task × Ty)} (h : task.Does l ty g r) :
    (ending r).stack.depth ≤ g.stack.depth + 1 ∧ g.stack.depth ≤ (ending r).stack.depth + 1 := by
  cases h with
  | @move m _ moved =>
    simp only [ending, moved.depth]
    cases m <;> simp only [Move.depth] <;> omega
  | stumble _ depth moved =>
    simp only [ending, moved.depth]
    omega
  | sign | parenthesis | tooDeep | literal | unreadable | go | close =>
    simp only [ending, Generator.down, Generator.stack_advance]
    omega
  | _ => exact ⟨Nat.le_succ _, Nat.le_succ _⟩

structure Config.Sound (c : Config) : Prop where
  nested : c.Nested 0
  within : c.failure = none → Within c.tasks c.generator.stack.depth
  nesting_le : c.failure = none → c.generator.nesting ≤ maxNesting
  maxDepth_le : c.generator.stack.maxDepth ≤ 2 * maxNesting + 3

theorem Config.sound_start (tokens : List Token) : (start tokens).Sound where
  nested := fun _ => rfl
  within := by
    intro _
    simp [start, expression, Rank.operand, Within, levels, Generator.start, OperandStack.depth,
      Move.depth, Rank.room]
  nesting_le := fun _ => Nat.zero_le _
  maxDepth_le := Nat.zero_le _

theorem Config.Sound.nesting_eq {c : Config} (hc : c.Sound) (hf : c.failure = none) :
    c.generator.nesting = levels c.tasks := (hc.nested hf).trans (Nat.zero_add _)

theorem Config.Sound.depth_le {c : Config} (hc : c.Sound) (hf : c.failure = none) :
    c.generator.stack.depth ≤ 2 * c.generator.nesting + 3 := by
  rw [hc.nesting_eq hf]
  exact (hc.within hf).depth_le

theorem Config.Sound.of_failed {c : Config} {d : Diagnostic} (hf : c.failure = some d)
    (hmax : c.generator.stack.maxDepth ≤ 2 * maxNesting + 3) : c.Sound := by
  have hfailed : c.failure ≠ none := by
    rw [hf]
    exact Option.some_ne_none d
  exact ⟨fun h => absurd h hfailed, fun h => absurd h hfailed, fun h => absurd h hfailed, hmax⟩

theorem Config.Sound.step {l : Linkage} {c c' : Config} (h : c.step l = some c') (hc : c.Sound) :
    c'.Sound := by
  have hnested : c'.Nested 0 := .step h hc.nested
  have hold := hc.maxDepth_le
  obtain ⟨task, rest, ht, ⟨new, ty, g, hf, hdoes, rfl⟩ | ⟨d, g, hf, hdoes, rfl⟩ | ⟨d, -, rfl⟩⟩ :=
    step_cases h
  · have hwithin := hdoes.within (ht ▸ hc.within hf)
    have hle := hdoes.nesting_le (hc.nesting_le hf)
    have hn : g.nesting = levels (new ++ rest) := (hnested rfl).trans (Nat.zero_add _)
    have hdepth : g.stack.depth ≤ 2 * g.nesting + 3 := hn ▸ hwithin.depth_le
    have hmax := hdoes.maxDepth_le
    exact ⟨hnested, fun _ => hwithin, fun _ => hle, by simp only [ending] at hmax ⊢; omega⟩
  · have hmax := hdoes.maxDepth_le
    have hdepth := hdoes.fails.1
    have hbefore := hc.depth_le hf
    have hle := hc.nesting_le hf
    -- The tasks behind are not looked at: they will only be given up.
    refine .of_failed (d := d) rfl ?_
    simp only [ending] at hmax ⊢
    omega
  · refine .of_failed (d := d) rfl ?_
    rwa [task.stack_unwind]

theorem Config.Reaches.sound {l : Linkage} {tokens : List Token} {c : Config}
    (h : Reaches l (start tokens) c) : c.Sound :=
  h.keeps (fun _ _ => Sound.step) (sound_start tokens)

/-- The step that fails does not exceed the limit either. -/
theorem Config.Sound.depth_le_of_step {l : Linkage} {c c' : Config} (hc : c.Sound)
    (hf : c.failure = none) (h : c.step l = some c') :
    c'.generator.stack.depth ≤ 2 * c'.generator.nesting + 3 := by
  have hc' := hc.step h
  obtain ⟨_, _, -, ⟨_, _, _, -, -, rfl⟩ | ⟨_, _, -, hdoes, rfl⟩ | ⟨_, hsome, -⟩⟩ := step_cases h
  · exact hc'.depth_le rfl
  · obtain ⟨hdepth, hn⟩ := hdoes.fails
    have hbefore := hc.depth_le hf
    dsimp only
    omega
  · cases hf.symm.trans hsome

theorem Config.depth_near {l : Linkage} {c c' : Config} (h : c.step l = some c') :
    c'.generator.stack.depth ≤ c.generator.stack.depth + 1 ∧
      c.generator.stack.depth ≤ c'.generator.stack.depth + 1 := by
  obtain ⟨task, _, -, ⟨_, _, _, -, hdoes, rfl⟩ | ⟨_, _, -, hdoes, rfl⟩ | ⟨_, -, rfl⟩⟩ :=
    step_cases h
  · exact hdoes.depth_near
  · exact hdoes.depth_near
  · rw [task.stack_unwind]
    exact ⟨Nat.le_succ _, Nat.le_succ _⟩

theorem Config.stack_of_failed {l : Linkage} {c c' : Config} (hf : c.failure ≠ none)
    (h : c.step l = some c') : c'.generator.stack = c.generator.stack := by
  obtain ⟨task, _, -, ⟨_, _, _, hnone, -⟩ | ⟨_, _, hnone, -⟩ | ⟨_, -, rfl⟩⟩ := step_cases h
  · exact absurd hnone hf
  · exact absurd hnone hf
  · exact task.stack_unwind c.generator

theorem Config.ending_result (c : Config) : ending c.result = c.generator := by
  unfold result
  cases c.failure <;> rfl

theorem compileTokens_generator_eq (target : Target) (symbols : Symbols) (tokens : List Token)
    (code data : Buffer) (verbose : Bool) :
    (compileTokens target symbols tokens code data verbose).generator =
      ending (function ⟨target.roles, symbols⟩ (.start tokens)) := by
  unfold compileTokens
  cases function ⟨target.roles, symbols⟩ (.start tokens) with
  | error d g => rfl
  | ok t g =>
    dsimp only
    split <;> rfl

section Towers

open Grammar (Derivation sentence)

def tower : Nat → Text
  | 0 => utf8 "1+1*1"
  | n + 1 => utf8 "1+1*(" ++ (tower n ++ utf8 ")")

def one : Derivation .factor := .atom (.literal (.int 1 (utf8 "1")))

def under (d : Derivation .factor) : Derivation .expression :=
  .add (.term (.factor one)) .plus (.multiply (.factor one) .star d)

def towerDerivation : Nat → Derivation .expression
  | 0 => under one
  | n + 1 => under (.atom (.parens (towerDerivation n)))

theorem tokensFrom_closing (k line column : Nat) :
    (tokensFrom 0 line column (List.replicate k 0x29)).map Token.lexeme =
      List.replicate k .rightParen ++ [Lexeme.endOfInput] := by
  induction k generalizing column with
  | zero => rfl
  | succ k ih => exact congrArg (Lexeme.rightParen :: ·) (ih (column + 1))

theorem tokensFrom_tower (n k line column : Nat) :
    (tokensFrom 0 line column (tower n ++ List.replicate k 0x29)).map Token.lexeme =
      (towerDerivation n).lexemes ++ (List.replicate k .rightParen ++ [Lexeme.endOfInput]) := by
  have hone : utf8 "1" = [0x31] := by decide +kernel
  have hbegin : utf8 "1+1*(" = [0x31, 0x2b, 0x31, 0x2a, 0x28] := by decide +kernel
  have hend : utf8 "1+1*1" = [0x31, 0x2b, 0x31, 0x2a, 0x31] := by decide +kernel
  have hclose : utf8 ")" = [0x29] := by decide +kernel
  induction n generalizing k column with
  | zero =>
    have hrest := tokensFrom_closing k line (column + 5)
    rw [tower, hend]
    simp only [towerDerivation, under, one, Derivation.lexemes, Grammar.Literal.lexeme, hone]
    rw [← hrest]
    cases k with
    | zero => rfl
    | succ k => rfl
  | succ n ih =>
    have hrest := ih (k + 1) (column + 5)
    have hsplit : tower (n + 1) ++ List.replicate k 0x29 =
        [0x31, 0x2b, 0x31, 0x2a, 0x28] ++ (tower n ++ List.replicate (k + 1) 0x29) := by
      rw [tower, hbegin, hclose]
      simp [List.replicate_succ]
    have hlexemes : (towerDerivation (n + 1)).lexemes ++
        (List.replicate k .rightParen ++ [Lexeme.endOfInput]) =
        [Lexeme.int 1 [0x31], .plus, .int 1 [0x31], .star, .leftParen] ++
          ((towerDerivation n).lexemes ++
            (List.replicate (k + 1) .rightParen ++ [Lexeme.endOfInput])) := by
      simp [towerDerivation, under, one, Derivation.lexemes, Grammar.Literal.lexeme, hone,
        List.replicate_succ, Grammar.Additive.lexeme, Grammar.Multiplicative.lexeme]
    rw [hsplit, hlexemes, ← hrest]
    rfl

theorem sentence_tower (n : Nat) :
    sentence (tokenize (tower n)) = (towerDerivation n).lexemes := by
  have h := tokensFrom_tower n 0 1 1
  rw [List.replicate_zero, List.append_nil] at h
  have hd : ∀ x ∈ (towerDerivation n).lexemes, decide (x ≠ Lexeme.endOfInput) = true := by
    intro x hx
    exact decide_eq_true (fun he => Grammar.endOfInput_not_mem _ (he ▸ hx))
  rw [sentence, tokenize, h, List.takeWhile_append_of_pos hd]
  exact List.append_nil _

theorem nesting_tower (n : Nat) : (towerDerivation n).nesting = n := by
  induction n with
  | zero => rfl
  | succ n ih => simp [towerDerivation, under, one, Derivation.nesting, ih]

theorem need_tower (n : Nat) : (towerDerivation n).expr.need = 2 * n + 3 := by
  induction n with
  | zero => rfl
  | succ n ih =>
    simp only [towerDerivation, under, one, Derivation.expr, Expr.need, ih]
    simp [Grammar.Literal.expr, Expr.need]
    omega

theorem compiles_tower (symbols : Symbols) (n : Nat) :
    (towerDerivation n).expr.compiles? symbols = some .int := by
  induction n with
  | zero => rfl
  | succ n ih =>
    simp only [towerDerivation, under, one, Derivation.expr, Expr.compiles?, ih]
    rfl

theorem length_tower (n : Nat) : (towerDerivation n).lexemes.length = 6 * n + 5 := by
  induction n with
  | zero => rfl
  | succ n ih =>
    simp only [towerDerivation, under, one, Derivation.lexemes, List.length_append,
      List.length_cons, List.length_nil, ih]
    omega

theorem dataRoom_tower (n : Nat) : dataRoom (towerDerivation n).lexemes = 0 := by
  induction n with
  | zero => rfl
  | succ n ih =>
    simpa [dataRoom, towerDerivation, under, one, Derivation.lexemes, Lexeme.room,
      Grammar.Literal.lexeme, Grammar.Additive.lexeme, Grammar.Multiplicative.lexeme] using ih

/-- A tower that is not nested too deep compiles, and the stack gets as deep as it may. -/
theorem tower_compiles {arch : Arch} {target : Target} (ha : arch.target? = some target)
    (symbols : Symbols) {n : Nat} (hn : n ≤ maxNesting) (verbose : Bool) :
    ∃ code data : Buffer, ∃ c : Compilation,
      compileTokens target symbols (tokenize (tower n)) code data verbose = c ∧
      c.outcome = .ok .int ∧ c.generator.stack.maxDepth = 2 * n + 3 := by
  obtain ⟨E⟩ := Arch.exists_encoder ha
  have hsize : codeRoom (sentence (tokenize (tower n))) < 0x8000000000000000 := by
    simp only [sentence_tower, codeRoom, operationRoom, length_tower]
    simp only [maxNesting] at hn
    omega
  have hcode := Buffer.ready_create (utf8 "code") 0 hsize
  have hdata := Buffer.ready_create (utf8 "data") 0 (show 0 < 0x8000000000000000 by decide)
  have hnesting : (towerDerivation n).nesting ≤ maxNesting := by rwa [nesting_tower]
  have hok := ok_of_room E hcode hdata (Buffer.fits_create_iff.2 (Nat.le_refl _))
    (Buffer.fits_create_iff.2 (Nat.le_of_eq (by rw [sentence_tower, dataRoom_tower])))
    (sentence_tower n).symm hnesting (compiles_tower symbols n) verbose
  obtain ⟨d, hd⟩ := compiled_of_ok E hcode hdata hok
  have hunique : d = towerDerivation n :=
    Grammar.derivation_unique (hd.lexemes.trans (sentence_tower n))
  refine ⟨_, _, _, rfl, hok, ?_⟩
  rw [hd.maxDepth, hunique, need_tower]

end Towers

/-- At every moment of generation, up to the one at which it fails if it does, the stack is at most
three deeper than twice the nesting, and the nesting is the number of levels that are open; so it
never has more than 2003 slots, and there is an expression that takes as many. The moments are those
of a machine that pushes and pops one value at a time and ends with what generation ends with. After
a failure the stack is not moved any more, while the levels that are open are left one by one. -/
theorem operand_stack_stays_shallow (target : Target) (symbols : Symbols) (tokens : List Token)
    (code data : Buffer) (verbose : Bool) :
    let l : Linkage := ⟨target.roles, symbols⟩
    (∀ c, Config.Reaches l (.start tokens) c →
      c.generator.stack.maxDepth ≤ 2003 ∧
      (c.failure = none → c.generator.nesting = levels c.tasks ∧
        c.generator.stack.depth ≤ 2 * c.generator.nesting + 3) ∧
      ∀ c', c.step l = some c' →
        (c.failure = none → c'.generator.stack.depth ≤ 2 * c'.generator.nesting + 3) ∧
        (c.failure ≠ none → c'.generator.stack = c.generator.stack) ∧
        c'.generator.stack.depth ≤ c.generator.stack.depth + 1 ∧
        c.generator.stack.depth ≤ c'.generator.stack.depth + 1) ∧
    (∃ c, Config.Reaches l (.start tokens) c ∧ c.step l = none ∧
      c.result = function l (.start tokens)) ∧
    (compileTokens target symbols tokens code data verbose).generator.stack.maxDepth ≤ 2003 ∧
    ∃ source : Text, ∀ (arch : Arch) (target : Target), arch.target? = some target →
      ∀ symbols : Symbols, ∃ code data : Buffer, ∃ c : Compilation,
        compileTokens target symbols (tokenize source) code data verbose = c ∧
        c.outcome = .ok .int ∧ c.generator.stack.maxDepth = 2003 := by
  intro l
  obtain ⟨last, hreaches, hend, hresult⟩ := Config.ends l tokens
  refine ⟨?_, ⟨last, hreaches, hend, hresult⟩, ?_, tower 1000, ?_⟩
  · intro c hc
    have hsound := hc.sound
    refine ⟨hsound.maxDepth_le, fun hf => ⟨hsound.nesting_eq hf, hsound.depth_le hf⟩, ?_⟩
    intro c' hstep
    exact ⟨fun hf => hsound.depth_le_of_step hf hstep, fun hf => Config.stack_of_failed hf hstep,
      Config.depth_near hstep⟩
  · rw [compileTokens_generator_eq, ← hresult, last.ending_result]
    exact hreaches.sound.maxDepth_le
  · intro arch target' ha symbols'
    exact tower_compiles ha symbols' (Nat.le_refl 1000) verbose

/-- When "1+1*(1+1*(" has failed and both levels are left, four operands are still on the stack. -/
theorem stack_outlasts_nesting :
    ∃ c, Config.Reaches ⟨X86.target.roles, Artifact.placeholders⟩
        (.start (tokenize (utf8 "1+1*(1+1*("))) c ∧
      c.generator.nesting = 0 ∧ c.generator.stack.depth = 4 ∧
      ¬c.generator.stack.depth ≤ 2 * c.generator.nesting + 3 := by
  obtain ⟨c, hreaches, -, hresult⟩ := Config.ends ⟨X86.target.roles, Artifact.placeholders⟩
    (tokenize (utf8 "1+1*(1+1*("))
  have hlast : (ending (function ⟨X86.target.roles, Artifact.placeholders⟩
      (.start (tokenize (utf8 "1+1*(1+1*("))))).nesting = 0 ∧
      (ending (function ⟨X86.target.roles, Artifact.placeholders⟩
        (.start (tokenize (utf8 "1+1*(1+1*("))))).stack.depth = 4 := by
    decide +kernel
  rw [← hresult, c.ending_result] at hlast
  refine ⟨c, hreaches, hlast.1, hlast.2, ?_⟩
  rw [hlast.1, hlast.2]
  decide

end Descent

end OnePass
