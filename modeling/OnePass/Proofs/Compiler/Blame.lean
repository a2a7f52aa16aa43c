import OnePass.Proofs.Compiler.Faults
import OnePass.Proofs.Expr.Prefixes

/-!
# The token to blame

A generator that cannot go on names the first token that no sentence has at its place. The steps
that emit code read no tokens and blame none for the grammar; so what was read when a production
fails begins a derivation, and readers refuse what comes next. Only the limit on nesting refuses a
token that a sentence may have.
-/

set_option autoImplicit false

namespace OnePass

namespace Generate

open Grammar

variable {ε α β : Type}

def Still (fault : ε → Prop) (m : Generate ε α) : Prop :=
  ∀ g, match m g with
    | .ok _ g' => g'.rest = g.rest ∧ g'.finish = g.finish
    | .error e _ => fault e

def Blameless (d : Diagnostic) : Prop := d.cause ≠ .grammar

namespace Still

variable {fault : ε → Prop}

theorem pure (a : α) : Still fault (Pure.pure a : Generate ε α) := fun _ => ⟨rfl, rfl⟩

theorem throw {e : ε} (h : fault e) : Still fault (MonadExcept.throw e : Generate ε α) := fun _ => h

theorem get : Still fault (MonadState.get : Generate ε Generator) := fun _ => ⟨rfl, rfl⟩

theorem act (a : Action) : Still fault (Generate.act a : Generate ε Unit) := fun _ => ⟨rfl, rfl⟩

theorem emit (o : Operation) : Still fault (Generate.emit o : Generate ε Unit) := act _

theorem bind {m : Generate ε α} {f : α → Generate ε β} (h : Still fault m)
    (k : ∀ a, Still fault (f a)) : Still fault (m >>= f) := by
  intro g
  have hm := h g
  simp only [Bind.bind, EStateM.bind]
  cases he : m g with
  | error e g' =>
    rw [he] at hm
    exact hm
  | ok a g' =>
    rw [he] at hm
    have hk := k a g'
    simp only
    cases hf : f a g' with
    | error e g'' =>
      rw [hf] at hk
      exact hk
    | ok b g'' =>
      rw [hf] at hk
      exact ⟨hk.1.trans hm.1, hk.2.trans hm.2⟩

theorem balanced {m : Generate Imbalance α} (h : Still (fun _ => True) m) :
    Still Blameless (Generate.balanced m) := by
  intro g
  have hm := h g
  simp only [Generate.balanced, EStateM.adaptExcept]
  cases he : m g with
  | error e g' =>
    intro hc
    cases hc
  | ok a g' =>
    rw [he] at hm
    exact hm

end Still

theorem push_still (fault : ε → Prop) (l : Linkage) (ty : Ty) :
    Still fault (push l ty : Generate ε Unit) := fun _ => ⟨rfl, rfl⟩

theorem popType_still (r : Text) : Still (fun _ => True) (popType r) := by
  refine Still.get.bind fun g => ?_
  cases g.stack.pop r with
  | error i => exact .throw trivial
  | ok p =>
    intro g'
    exact ⟨rfl, rfl⟩

theorem popInt_still (r : Text) : Still (fun _ => True) (popInt r) := by
  refine (popType_still r).bind fun ty => ?_
  split
  · exact (Still.throw trivial).bind fun _ => .emit _
  · exact .emit _

theorem popFloat_still (r : Text) : Still (fun _ => True) (popFloat r) := by
  refine (popType_still r).bind fun ty => ?_
  split
  · exact (Still.throw trivial).bind fun _ => .emit _
  · exact .emit _

theorem popAsFloat_still (freg reg : Text) : Still (fun _ => True) (popAsFloat freg reg) := by
  refine Still.get.bind fun g => ?_
  split
  · exact popFloat_still freg
  · exact (popInt_still reg).bind fun _ => .emit _

theorem validate_still (expected : Nat) (label : Text) :
    Still (fun _ => True) (validate expected label) := by
  refine Still.get.bind fun g => ?_
  split
  · exact .throw trivial
  · exact .pure _

theorem callRoutine_still (l : Linkage) (r : Routine) (location : Location) :
    Still Blameless (callRoutine l r location) := by
  unfold callRoutine
  split
  · refine (Still.throw ?_).bind fun _ => .emit _
    intro hc
    cases hc
  · exact .emit _

theorem push_return_still (l : Linkage) (ty : Ty) :
    Still Blameless (do push l ty; return ty : Production) :=
  (push_still _ l ty).bind fun _ => .pure ty

theorem operands_still (l : Linkage) (c : Coercion) : Still Blameless (operands l c) := by
  cases c with
  | int | concat => exact (popInt_still _).balanced.bind fun _ => (popInt_still _).balanced
  | float => exact (popAsFloat_still _ _).balanced.bind fun _ => (popAsFloat_still _ _).balanced

theorem compute_still (l : Linkage) (c : Coercion) (op : Operator) (location : Location) :
    Still Blameless (compute l c op location) := by
  unfold compute
  cases c.routine? op with
  | none => cases c <;> exact .emit _
  | some r =>
    refine (callRoutine_still l r location).bind fun _ => ?_
    cases r <;> exact .emit _

theorem binary_still (l : Linkage) (op : Operator) (location : Location) (left right : Ty) :
    Still Blameless (binary l op location left right) := by
  cases hp : op.promote left right with
  | error f =>
    unfold binary
    rw [hp]
    refine .throw ?_
    intro hc
    cases hc
  | ok r =>
    obtain ⟨result, c⟩ := r
    rw [binary_eq hp]
    exact (Still.act _).bind fun _ => (operands_still l c).bind fun _ =>
      (compute_still l c op location).bind fun _ => push_return_still l result

theorem sign_still (l : Linkage) (op : Operator) (location : Location) (operand : Ty) :
    Still Blameless (sign l op location operand) := by
  have hend := push_return_still l
  unfold sign
  split
  · refine .throw ?_
    intro hc
    cases hc
  · rename_i result _
    split
    · exact .pure _
    · split
      · exact (popFloat_still _).balanced.bind fun _ => (Still.emit _).bind fun _ => hend result
      · split
        · exact (popFloat_still _).balanced.bind fun _ => (Still.emit _).bind fun _ => hend result
        · exact (popInt_still _).balanced.bind fun _ => (Still.emit _).bind fun _ => hend result

theorem literal_still (l : Linkage) (load : Action) (ty : Ty) :
    Still Blameless (literal l load ty) :=
  (Still.act load).bind fun _ => push_return_still l ty

theorem result_still (l : Linkage) (ty : Ty) : Still Blameless (do
    balanced (validate 1 (utf8 "end of expression"))
    balanced (popResult l ty)
    balanced (validate 0 (utf8 "epilogue"))
    emit .epilogue
    return ty : Production) := by
  have hresult : Still (fun _ => True) (popResult l ty) := by
    unfold popResult
    split
    · exact popFloat_still _
    · exact popInt_still _
  exact (validate_still _ _).balanced.bind fun _ => hresult.balanced.bind fun _ =>
    (validate_still _ _).balanced.bind fun _ => (Still.emit _).bind fun _ => .pure ty

end Generate

def Generator.Past (g : Generator) (ls : List Lexeme) (g' : Generator) : Prop :=
  ∃ taken, g.rest = taken ++ g'.rest ∧ taken.map Token.lexeme = ls ∧ g'.finish = g.finish

namespace Generator.Past

variable {g g' g'' : Generator} {ls ls' : List Lexeme}

theorem refl (g : Generator) : g.Past [] g := ⟨[], rfl, rfl, rfl⟩

theorem trans (h : g.Past ls g') (h' : g'.Past ls' g'') : g.Past (ls ++ ls') g'' := by
  obtain ⟨taken, hr, hl, hf⟩ := h
  obtain ⟨taken', hr', hl', hf'⟩ := h'
  refine ⟨taken ++ taken', ?_, ?_, hf'.trans hf⟩
  · rw [hr, hr', List.append_assoc]
  · rw [List.map_append, hl, hl']

theorem still (h : g.Past ls g') (hr : g''.rest = g'.rest) (hf : g''.finish = g'.finish) :
    g.Past ls g'' := by
  unfold Past
  rw [hr, hf]
  exact h

theorem advance {l : Lexeme} (h : g.next.lexeme = l) (hl : l ≠ .endOfInput) :
    g.Past [l] g.advance := by
  unfold Generator.next at h
  unfold Generator.advance
  cases hr : g.rest with
  | nil =>
    rw [hr] at h
    exact absurd h.symm hl
  | cons token rest =>
    rw [hr] at h
    exact ⟨[token], hr, congrArg (fun l => [l]) h, rfl⟩

theorem length_eq (h : g.Past ls g') : g'.rest.length + ls.length = g.rest.length := by
  obtain ⟨taken, hr, rfl, -⟩ := h
  rw [hr, List.length_append, List.length_map, Nat.add_comm]

end Generator.Past

namespace Generate

open Grammar

/-- Behind lexemes that begin a derivation, the diagnostic is about the next token, and readers of
`n` levels or more refuse it; or it is the limit on nesting that refuses it. -/
def Stuck {c : Grammar.Category} (n : Nat) (r : Nat → Reader c) (g : Generator) (e : Diagnostic) :
    Prop :=
  ∃ ls g', g.Past ls g' ∧ e.location = g'.next.location ∧ Begins c ls ∧
    ∀ m, n ≤ m → Refuses (r m) ls g'.next.lexeme ∨
      (e = tooDeep e.location ∧ n < m ∧ g'.next.lexeme ≠ .endOfInput)

/-- What is refused behind some lexemes is refused from before them, `k` levels up. -/
theorem Stuck.extend {c c' : Grammar.Category} {n : Nat} {r : Nat → Reader c}
    {r' : Nat → Reader c'} {g g' : Generator} {e : Diagnostic} {before : List Lexeme} (k : Nat)
    (h : Stuck n r g' e) (hp : g.Past before g')
    (hb : ∀ ls, Begins c ls → Begins c' (before ++ ls))
    (hr : ∀ m ls next, n ≤ m → Refuses (r m) ls next →
      Refuses (r' (m + k)) (before ++ ls) next) : Stuck (n + k) r' g e := by
  obtain ⟨ls, g'', hp', hl, hls, hn⟩ := h
  refine ⟨before ++ ls, g'', hp.trans hp', hl, hb ls hls, fun m hm => ?_⟩
  obtain ⟨j, rfl⟩ : ∃ j, m = j + k := ⟨m - k, by omega⟩
  rcases hn j (by omega) with href | ⟨he, hj, hnext⟩
  · exact .inl (hr j ls _ (by omega) href)
  · exact .inr ⟨he, by omega, hnext⟩

/-- How a production ends that started at `g₀`: it has read a derivation, with something behind it
that may follow, or it is stuck if it blames a token. -/
inductive Located {c : Grammar.Category} (n : Nat) (F : List Lexeme → Prop) (r : Nat → Reader c)
    (g₀ : Generator) : EStateM.Result Diagnostic Generator Ty → Prop where
  | ok {t : Ty} {g : Generator} (d : Derivation c) (nesting : d.nesting ≤ n)
      (past : g₀.Past d.lexemes g) (follows : F (g.rest.map Token.lexeme)) :
      Located n F r g₀ (.ok t g)
  | error {e : Diagnostic} {g : Generator} (stuck : e.cause = .grammar → Stuck n r g₀ e) :
      Located n F r g₀ (.error e g)

section Located

variable {c : Grammar.Category} {n : Nat} {F : List Lexeme → Prop} {r : Nat → Reader c}
  {g₀ g : Generator}

theorem Located.of_still {p : Production} (hp : Still Blameless p) (d : Derivation c)
    (hn : d.nesting ≤ n) (hd : g₀.Past d.lexemes g) (hf : F (g.rest.map Token.lexeme)) :
    Located n F r g₀ (p g) := by
  have h := hp g
  cases he : p g with
  | error e g' =>
    rw [he] at h
    exact .error fun hc => absurd hc h
  | ok t g' =>
    rw [he] at h
    refine .ok d hn (hd.still h.1 h.2) ?_
    rwa [h.1]

theorem Located.leaving {p : Production} (h : Located n F r g₀ (p g)) :
    Located n F r g₀ (leaving p g) := by
  unfold Generate.leaving
  generalize p g = result at h
  cases h with
  | ok d hn hp hf => exact .ok d hn hp hf
  | error hs => exact .error hs

end Located

section Levels

variable {l : Linkage} {c c' : Grammar.Category} {L : Grammar.Level c c'} {p : Production}
  {operator? : Lexeme → Option Operator} {n : Nat} {F : List Lexeme → Prop} {r : Nat → Reader c'}

theorem binaryRest_located (hop : ∀ x, operator? x = (L.of? x).map L.operator)
    (hp : ∀ g, Located n F r g (p g)) (hc : ∀ m, Complete m F (r m))
    (hF : ∀ (o : L.Op) ls, F (L.lexeme o :: ls)) {g₀ : Generator} (k : Nat) {a : Derivation c}
    (left : Ty) {g : Generator} (hk : g.rest.length ≤ k) (ha : a.nesting ≤ n)
    (hg : g₀.Past a.lexemes g) (hf : F (g.rest.map Token.lexeme)) :
    Located n (fun rest => F rest ∧ L.Ends rest) (fun m => L.read (r m)) g₀
      (binaryRest l operator? p k left g) := by
  -- `a` is what was joined so far, from `g₀` on; there are tokens for at most `k` more operators.
  induction k generalizing a left g with
  | zero =>
    have hnil : g.rest = [] := List.length_eq_zero_iff.1 (Nat.le_zero.1 hk)
    refine .ok a ha hg ⟨hf, ?_⟩
    rw [L.ends_iff, hnil]
    exact L.of?_endOfInput
  | succ k ih =>
    cases ho : L.of? g.next.lexeme with
    | none =>
      have hstop : operator? g.next.lexeme = none := by rw [hop, ho]; rfl
      rw [binaryRest_stops _ _ hstop]
      refine .ok a ha hg ⟨hf, ?_⟩
      rwa [L.ends_iff, ← next_lexeme]
    | some o =>
      have hgo : operator? g.next.lexeme = some (L.operator o) := by rw [hop, ho]; rfl
      have hlex : g.next.lexeme = L.lexeme o := L.of?_eq_some_iff.1 ho
      have hnot : L.lexeme o ≠ .endOfInput := by
        intro he
        rw [hlex, he, L.of?_endOfInput] at ho
        cases ho
      have hadv : g.Past [L.lexeme o] g.advance := .advance hlex hnot
      have hthere : g₀.Past (a.lexemes ++ [L.lexeme o]) g.advance := hg.trans hadv
      rw [binaryRest_goes k left hgo]
      have hright := hp g.advance
      have hrun : (advance : Generate Diagnostic Unit) g = .ok () g.advance := rfl
      cases he : p g.advance with
      | error e g₁ =>
        rw [he] at hright
        simp only [bind, EStateM.bind, hrun, he]
        cases hright with
        | error hs =>
          -- What the right operand refuses is refused behind `a` and the operator.
          refine .error fun hcause => (hs hcause).extend 0 hthere (fun ls hls => ?_)
            fun m ls next hm href => ?_
          · rw [List.append_assoc]
            exact L.begins_join a o hls
          · rw [List.append_assoc]
            exact Grammar.Level.refuses_join (hc m) hF (by omega) o href
      | ok right g₁ =>
        rw [he] at hright
        simp only [bind, EStateM.bind, hrun, he]
        cases hright with
        | ok b hb hpast hfollow =>
          have hstill := binary_still l (L.operator o) g.next.location left right g₁
          cases hbin : binary l (L.operator o) g.next.location left right g₁ with
          | error e g₂ =>
            rw [hbin] at hstill
            exact .error fun hcause => absurd hcause hstill
          | ok result g₂ =>
            rw [hbin] at hstill
            have hjoin : g₀.Past (L.join a o b).lexemes g₂ := by
              rw [L.lexemes_join, ← List.singleton_append, ← List.append_assoc]
              exact (hthere.trans hpast).still hstill.1 hstill.2
            have hlen₁ := hadv.length_eq
            have hlen₂ := hpast.length_eq
            rw [List.length_singleton] at hlen₁
            refine ih result ?_ ?_ hjoin ?_
            · rw [hstill.1]
              omega
            · rw [L.nesting_join]
              omega
            · rwa [hstill.1]

theorem binaryLevel_located (hop : ∀ x, operator? x = (L.of? x).map L.operator)
    (hp : ∀ g, Located n F r g (p g)) (hc : ∀ m, Complete m F (r m))
    (hF : ∀ (o : L.Op) ls, F (L.lexeme o :: ls)) (g : Generator) :
    Located n (fun rest => F rest ∧ L.Ends rest) (fun m => L.read (r m)) g
      (binaryLevel l operator? p g) := by
  have hleft := hp g
  unfold binaryLevel
  cases he : p g with
  | error e g₁ =>
    rw [he] at hleft
    simp only [bind, EStateM.bind, he]
    cases hleft with
    | error hs =>
      refine .error fun hcause => (hs hcause).extend 0 (.refl g) (fun ls hls => ?_)
        fun m ls next _ href => ?_
      · exact L.begins_first hls
      · exact L.refuses_first href
  | ok left g₁ =>
    rw [he] at hleft
    rw [bind_of_ok he, get_bind]
    cases hleft with
    | ok b hb hpast hfollow =>
      rw [← L.nesting_first] at hb
      rw [← L.lexemes_first] at hpast
      exact binaryRest_located hop hp hc hF _ left (Nat.le_refl _) hb hpast hfollow

end Levels

theorem expression_located {l : Linkage} {unary : Production} {n : Nat}
    (h : ∀ g, Located n (fun _ => True) readFactor g (unary g)) (g : Generator) :
    Located n Closes readExpression g (expression l unary g) := by
  have hterms : ∀ g, Located n (fun rest => True ∧ terms.Ends rest)
      (fun m => terms.read (readFactor m)) g (multiplicative l unary g) := by
    refine binaryLevel_located (fun x => ?_) h readFactor_complete fun _ _ => trivial
    cases x <;> rfl
  refine binaryLevel_located (L := sums) (fun x => ?_) hterms (fun m => ?_) (fun o ls => ?_) g
  · cases x <;> rfl
  · exact Grammar.Level.read_complete (readFactor_complete m) fun _ _ => trivial
  · exact ⟨trivial, terms_ends_additive o ls⟩

def LocatedBelow : Nat → Option Production → Prop
  | 0, inner => inner = none
  | n + 1, inner => ∃ p, inner = some p ∧ ∀ g, Located n (fun _ => True) readFactor g (p g)

section Factors

variable {l : Linkage} {n : Nat} {g₀ g : Generator}

theorem parenthesised_located {unary : Production} (opening : Location)
    (h : ∀ g, Located n (fun _ => True) readFactor g (unary g)) (hg : g₀.Past [.leftParen] g) :
    Located (n + 1) (fun _ => True) (fun m => readAtom (readBelow m)) g₀
      (parenthesised l opening unary g) := by
  have hbody := expression_located (l := l) h g
  unfold parenthesised
  cases he : expression l unary g with
  | error e g₁ =>
    rw [he] at hbody
    simp only [bind, EStateM.bind, he]
    cases hbody with
    | error hs =>
      refine .error fun hcause => (hs hcause).extend 1 hg (fun ls hls => ?_)
        fun m ls next _ href => ?_
      · exact hls.parens
      · exact href.parens
  | ok t g₁ =>
    rw [he] at hbody
    rw [bind_of_ok he, peek_bind]
    cases hbody with
    | ok d hd hpast hclose =>
      have hthere : g₀.Past (.leftParen :: d.lexemes) g₁ := hg.trans hpast
      by_cases hr : g₁.next.lexeme = .rightParen
      · rw [if_pos hr]
        have hadv : g₁.Past [.rightParen] g₁.advance := .advance hr (by simp)
        refine Located.ok (.parens d) ?_ (hthere.trans hadv) trivial
        exact Nat.add_le_add_right hd 1
      · rw [if_neg hr]
        refine .error fun _ => ⟨_, g₁, hthere, rfl, (begins_lexemes d).parens, fun m hm => .inl ?_⟩
        obtain ⟨j, rfl⟩ : ∃ j, m = j + 1 := ⟨m - 1, by omega⟩
        rw [next_lexeme] at hr ⊢
        exact refuses_unclosed (by omega) hclose hr

theorem nested_none_located {c : Grammar.Category} {r : Nat → Reader c} {F : List Lexeme → Prop}
    (body : Production → Production) (he : g₀.next.lexeme ≠ .endOfInput) (hb : Begins c [])
    (hr : Refuses (r 0) [] g₀.next.lexeme) :
    Located 0 F r g₀ (nested g₀.next.location none body g) := by
  refine .error fun _ => ⟨[], g₀, .refl g₀, rfl, hb, fun m _ => ?_⟩
  cases m with
  | zero => exact .inl hr
  | succ m => exact .inr ⟨rfl, Nat.succ_pos m, he⟩

theorem operand_located {e : Diagnostic} {F : List Lexeme → Prop}
    (hl : e.location = g₀.next.location) (hp : g₀.next.lexeme ≠ .leftParen)
    (hx : Literal.of? g₀.next.lexeme = none) :
    Located n F (fun m => readAtom (readBelow m)) g₀ ((throw e : Production) g) :=
  .error fun _ => ⟨[], g₀, .refl g₀, hl, begins_atom_nil, fun _ _ => .inl (refuses_operand _ hp hx)⟩

theorem literal_located (x : Literal) {load : Action} {ty : Ty} (hx : g.next.lexeme = x.lexeme) :
    Located n (fun _ => True) (fun m => readAtom (readBelow m)) g
      (literal l load ty g.advance) := by
  have hadv : g.Past [x.lexeme] g.advance := .advance hx (by cases x <;> simp [Literal.lexeme])
  exact .of_still (literal_still l load ty) (.literal x) (Nat.zero_le n) hadv trivial

theorem location_unknownWord (name : Text) (location : Location) :
    (unknownWord name location).location = location := by
  unfold unknownWord
  dsimp only
  split <;> rfl

theorem primary_located {inner : Option Production} (h : LocatedBelow n inner) (g : Generator) :
    Located n (fun _ => True) (fun m => readAtom (readBelow m)) g (primary l inner g) := by
  have hadv : (advance : Generate Diagnostic Unit) g = .ok () g.advance := rfl
  rw [primary, peek_bind, bind_of_ok hadv]
  cases hx : g.next.lexeme with
  | null => exact literal_located .null hx
  | bool b => exact literal_located (.bool b) hx
  | int k spelling => exact literal_located (.int k spelling) hx
  | float x spelling => exact literal_located (.float x spelling) hx
  | string s => exact literal_located (.string s) hx
  | leftParen =>
    have hadv : g.Past [.leftParen] g.advance := .advance hx (by simp)
    cases n with
    | zero =>
      obtain rfl : inner = none := h
      exact nested_none_located _ (by rw [hx]; simp) begins_atom_nil (hx ▸ refuses_leftParen)
    | succ n =>
      obtain ⟨p, rfl, hp⟩ := h
      exact (parenthesised_located (g := { g.advance with nesting := g.advance.nesting + 1 })
        g.next.location hp hadv).leaving
  | word name =>
    exact operand_located (location_unknownWord name _) (by rw [hx]; simp) (by rw [hx]; rfl)
  | illegal reason =>
    exact operand_located (e := .ofGrammar reason _) rfl (by rw [hx]; simp) (by rw [hx]; rfl)
  | _ =>
    exact operand_located (e := .unexpected _ _) rfl (by rw [hx]; simp) (by rw [hx]; rfl)

theorem signed_located {operand : Production} (s : Additive) (location : Location)
    (h : ∀ g, Located n (fun _ => True) readFactor g (operand g)) (hg : g₀.Past [s.lexeme] g) :
    Located (n + 1) (fun _ => True) readFactor g₀
      ((do let ty ← operand; sign l s.operator location ty : Production) g) := by
  have hbody := h g
  cases he : operand g with
  | error e g₁ =>
    rw [he] at hbody
    simp only [bind, EStateM.bind, he]
    cases hbody with
    | error hs =>
      refine .error fun hcause => (hs hcause).extend 1 hg (fun ls hls => ?_)
        fun m ls next _ href => ?_
      · exact hls.sign s
      · exact href.sign s
  | ok t g₁ =>
    rw [he] at hbody
    rw [bind_of_ok he]
    cases hbody with
    | ok d hd hpast _ =>
      refine .of_still (sign_still l s.operator location t) (.sign s d) ?_ (hg.trans hpast) trivial
      exact Nat.add_le_add_right hd 1

theorem Located.atom {result : EStateM.Result Diagnostic Generator Ty}
    (hs : Additive.of? g₀.next.lexeme = none)
    (h : Located n (fun _ => True) (fun m => readAtom (readBelow m)) g₀ result) :
    Located n (fun _ => True) readFactor g₀ result := by
  cases h with
  | ok d hn hp hf => exact .ok (.atom d) hn hp hf
  | error hstuck =>
    refine .error fun hcause => ?_
    obtain ⟨ls, g', hp, hl, hb, hr⟩ := hstuck hcause
    refine ⟨ls, g', hp, hl, hb.atom, fun m hm => ?_⟩
    rcases hr m hm with href | hdeep
    · refine .inl (href.atom ?_)
      obtain ⟨taken, hrest, rfl, -⟩ := hp
      rw [next_lexeme, hrest] at hs
      cases taken with
      | nil => rwa [next_lexeme]
      | cons token taken => exact hs
    · exact .inr hdeep

theorem unaryWith_located {inner : Option Production} (h : LocatedBelow n inner) (g : Generator) :
    Located n (fun _ => True) readFactor g (unaryWith l inner g) := by
  have hop : additiveOperator? g.next.lexeme =
      (Additive.of? g.next.lexeme).map Additive.operator := by cases g.next.lexeme <;> rfl
  cases hs : Additive.of? g.next.lexeme with
  | none =>
    rw [hs] at hop
    rw [unaryWith, peek_bind, hop]
    exact (primary_located h g).atom hs
  | some s =>
    rw [hs] at hop
    have hrun : (advance : Generate Diagnostic Unit) g = .ok () g.advance := rfl
    simp only [unaryWith, peek_bind, hop, Option.map_some, bind_of_ok hrun]
    have hlex : g.next.lexeme = s.lexeme := Additive.of?_eq_some_iff.1 hs
    have hne : s.lexeme ≠ .endOfInput := by cases s <;> simp [Additive.lexeme]
    have hadv : g.Past [s.lexeme] g.advance := .advance hlex hne
    cases n with
    | zero =>
      obtain rfl : inner = none := h
      exact nested_none_located _ (hlex ▸ hne) begins_atom_nil.atom (hlex ▸ refuses_sign s)
    | succ n =>
      obtain ⟨p, rfl, hp⟩ := h
      exact (signed_located (g := { g.advance with nesting := g.advance.nesting + 1 }) s
        g.next.location hp hadv).leaving

end Factors

theorem unary_located (l : Linkage) (n : Nat) (g : Generator) :
    Located n (fun _ => True) readFactor g (unary l n g) := by
  induction n generalizing g with
  | zero =>
    have h : LocatedBelow 0 none := rfl
    exact unaryWith_located h g
  | succ n ih =>
    have h : LocatedBelow (n + 1) (some (unary l n)) := ⟨unary l n, rfl, ih⟩
    exact unaryWith_located h g

theorem atEnd_blames {g : Generator} (h : g.next.lexeme ≠ .endOfInput) :
    ∃ e, atEnd g = .error e g ∧ e.location = g.next.location := by
  rw [atEnd, peek_bind]
  cases hx : g.next.lexeme with
  | endOfInput => exact absurd hx h
  | _ => exact ⟨_, rfl, rfl⟩

/-- A function that blames a token is stuck at it: with no sentence goes on. -/
theorem function_stuck {l : Linkage} {tokens : List Token} {e : Diagnostic} {g : Generator}
    (h : function l (.start tokens) = .error e g) (hc : e.cause = .grammar) :
    Stuck maxNesting readSentence (.start tokens) e := by
  rw [function_eq] at h
  have hbody := expression_located (l := l) (unary_located l maxNesting)
    ((Generator.start tokens).act (.operation .prologue))
  cases he : expression l (unary l maxNesting)
      ((Generator.start tokens).act (.operation .prologue)) with
  | error e' g₁ =>
    rw [he] at hbody
    simp only [bind, EStateM.bind, he] at h
    cases h
    cases hbody with
    | error hs =>
      exact (hs hc).extend 0 (.refl _) (fun ls hls => hls) fun m ls next _ href => href.sentence
  | ok t g₁ =>
    rw [he] at hbody
    rw [bind_of_ok he] at h
    cases hbody with
    | ok d hd hpast hclose =>
      by_cases hend : g₁.next.lexeme = .endOfInput
      · have hat : atEnd g₁ = .ok () g₁ := by
          rw [atEnd, peek_bind, hend]
          rfl
        rw [finish, bind_of_ok hat] at h
        have hstill := result_still l t g₁
        rw [h] at hstill
        exact absurd hc hstill
      · obtain ⟨e', hat, hloc⟩ := atEnd_blames hend
        simp only [finish, bind, EStateM.bind, hat] at h
        cases h
        refine ⟨d.lexemes, g, hpast, hloc, begins_lexemes d, fun m hm => .inl ?_⟩
        rw [next_lexeme] at hend ⊢
        exact refuses_trailing (by omega) hclose hend

end Generate

section Blame

open Grammar Generate

variable {n : Nat} {tokens : List Token} {d : Diagnostic}

theorem Generate.Stuck.at_token (h : Stuck n readSentence (.start tokens) d) :
    ∃ k ≤ (sentence tokens).length,
      d.location = (tokens.getD k ⟨.endOfInput, Generator.endLocation tokens⟩).location ∧
      (∃ e : Derivation .expression, (sentence tokens).take k <+: e.lexemes) ∧
      (k < (sentence tokens).length → ∀ e : Derivation .expression,
        (sentence tokens).take (k + 1) <+: e.lexemes → d = tooDeep d.location ∧ n < e.nesting) ∧
      (k = (sentence tokens).length → ∀ e : Derivation .expression,
        e.lexemes ≠ sentence tokens) := by
  obtain ⟨ls, g, ⟨taken, hrest, hls, hfinish⟩, hloc, ⟨e, he⟩, hrefuse⟩ := h
  replace hrest : tokens = taken ++ g.rest := hrest
  have hlen : ls.length = taken.length := by rw [← hls, List.length_map]
  have hsentence : sentence tokens = ls ++ sentence g.rest := by
    rw [hrest, sentence_append, hls]
    rw [hls]
    exact fun hmem => endOfInput_not_mem e (he.subset hmem)
  have hnext : tokens.getD taken.length ⟨.endOfInput, Generator.endLocation tokens⟩ = g.next := by
    have hf : g.finish = Generator.endLocation tokens := hfinish
    rw [← hf, hrest, Generator.next, List.getD_eq_getElem?_getD,
      List.getElem?_append_right (Nat.le_refl _), Nat.sub_self]
    cases g.rest <;> rfl
  have hbefore : (sentence tokens).take taken.length = ls := by
    rw [hsentence, ← hlen, List.take_left]
  refine ⟨taken.length, ?_, hnext ▸ hloc, ⟨e, hbefore ▸ he⟩, ?_⟩
  · rw [hsentence, List.length_append, hlen]
    exact Nat.le_add_right _ _
  by_cases hend : g.next.lexeme = .endOfInput
  · -- Everything was read, and more is missing.
    have hall : sentence tokens = ls := by
      rw [hsentence, sentence_of_head (next_lexeme g ▸ hend), List.append_nil]
    rw [hall, hlen]
    constructor
    · intro hk
      exact absurd hk (Nat.lt_irrefl _)
    · intro _ e'
      rcases hrefuse (max n e'.nesting) (Nat.le_max_left ..) with href | ⟨-, -, hne⟩
      · rw [hend] at href
        exact href.not_sentence (Nat.le_max_right ..)
      · exact absurd hend hne
  · -- The next token is part of the sentence and is refused.
    obtain ⟨rest, hg⟩ : ∃ rest, g.rest = g.next :: rest := by
      unfold Generator.next at hend ⊢
      cases hr : g.rest with
      | nil =>
        rw [hr] at hend
        exact absurd rfl hend
      | cons token rest => exact ⟨rest, rfl⟩
    rw [hg, sentence_cons hend] at hsentence
    have hupto : (sentence tokens).take (taken.length + 1) = ls ++ [g.next.lexeme] := by
      rw [hsentence, ← hlen, List.take_length_add_append]
      rfl
    constructor
    · intro _ e' he'
      rw [hupto] at he'
      rcases hrefuse (max n e'.nesting) (Nat.le_max_left ..) with href | ⟨hdeep, hn, -⟩
      · exact absurd he' (href.not_prefix (Nat.le_max_right ..))
      · exact ⟨hdeep, by omega⟩
    · intro hk
      rw [hsentence, List.length_append, List.length_cons] at hk
      omega

end Blame

/-- A syntax error is reported at the first impossible token. Up to the end of input, the tokens
before it begin a sentence, and no sentence goes on with it; at the end of input, the tokens are no
sentence. The only exception is the limit on nesting: sentences that go on with the token reported
for it are nested deeper. -/
theorem compileTokens_blames_first_impossible_token {target : Target} {symbols : Symbols}
    {tokens : List Token} {code data : Buffer} {verbose : Bool} {d : Diagnostic}
    (h : (compileTokens target symbols tokens code data verbose).outcome = .error d)
    (hd : d.cause = .grammar) :
    ∃ k ≤ (Grammar.sentence tokens).length,
      d.location = (tokens.getD k ⟨.endOfInput, Generator.endLocation tokens⟩).location ∧
      (∃ e : Grammar.Derivation .expression,
        (Grammar.sentence tokens).take k <+: e.lexemes) ∧
      (k < (Grammar.sentence tokens).length → ∀ e : Grammar.Derivation .expression,
        (Grammar.sentence tokens).take (k + 1) <+: e.lexemes →
          d = Generate.tooDeep d.location ∧ Generate.maxNesting < e.nesting) ∧
      (k = (Grammar.sentence tokens).length → ∀ e : Grammar.Derivation .expression,
        e.lexemes ≠ Grammar.sentence tokens) := by
  cases hg : Generate.function ⟨target.roles, symbols⟩ (.start tokens) with
  | ok t g =>
    obtain ⟨f, rfl⟩ := buffer_of_generated hg h
    cases hd
  | error e g =>
    rw [compileTokens_outcome, hg] at h
    cases h
    exact (Generate.function_stuck hg hd).at_token

/-- In "(1 + 2 3" the last number is to blame: behind the four tokens before it, which begin a
sentence, no sentence has a number. -/
theorem second_operand_is_blamed :
    ∃ d, (compileTokens X86.target ⟨1, 2, 3⟩ (tokenize (utf8 "(1 + 2 3"))
        (.create [] 512 0) (.create [] 64 0x1000)).outcome = .error d ∧
      d.cause = .grammar ∧ d.location = ⟨1, 8, 1⟩ ∧
      (∃ e : Grammar.Derivation .expression,
        (Grammar.sentence (tokenize (utf8 "(1 + 2 3"))).take 4 <+: e.lexemes) ∧
      ∀ e : Grammar.Derivation .expression,
        ¬(Grammar.sentence (tokenize (utf8 "(1 + 2 3"))).take 5 <+: e.lexemes := by
  generalize hout : (compileTokens X86.target ⟨1, 2, 3⟩ (tokenize (utf8 "(1 + 2 3"))
    (.create [] 512 0) (.create [] 64 0x1000)).outcome = outcome
  have hkind : Except.casesOn (motive := fun _ => Bool) outcome
      (fun d => decide (d.cause = .grammar ∧ d.location = ⟨1, 8, 1⟩ ∧
        d ≠ Generate.tooDeep d.location)) (fun _ => false) = true := by
    rw [← hout]
    decide +kernel
  cases outcome with
  | ok t => cases hkind
  | error d =>
    obtain ⟨hd, hloc, hdeep⟩ := of_decide_eq_true hkind
    have hlen : (Grammar.sentence (tokenize (utf8 "(1 + 2 3"))).length = 5 := by decide +kernel
    obtain ⟨k, hk, hat, hbegin, hrefuse, -⟩ := compileTokens_blames_first_impossible_token hout hd
    have hfour : ∀ k ≤ 5, (Location.mk 1 8 1) = ((tokenize (utf8 "(1 + 2 3")).getD k
        ⟨.endOfInput, Generator.endLocation (tokenize (utf8 "(1 + 2 3"))⟩).location → k = 4 := by
      decide +kernel
    obtain rfl : k = 4 := hfour k (hlen ▸ hk) (hloc ▸ hat)
    refine ⟨d, rfl, hd, hloc, hbegin, fun e he => hdeep ?_⟩
    exact (hrefuse (by rw [hlen]; decide) e he).1

end OnePass
