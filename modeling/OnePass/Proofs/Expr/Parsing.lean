import OnePass.Expr.Grammar

/-!
# Reading derivations

A reader finds the derivation that lexemes begin with, by recursive descent. Reading what a
derivation yields gives the derivation back, whatever follows that cannot extend it; so lexemes
have one derivation at most. The two levels of binary operators are read alike.
-/

set_option autoImplicit false

namespace OnePass.Grammar

abbrev Reader (c : Category) := List Lexeme → Option (Derivation c × List Lexeme)

def Additive.of? : Lexeme → Option Additive
  | .plus => some .plus
  | .minus => some .minus
  | _ => none

def Multiplicative.of? : Lexeme → Option Multiplicative
  | .star => some .star
  | .power => some .power
  | .slash => some .slash
  | .percent => some .percent
  | _ => none

def Literal.of? : Lexeme → Option Literal
  | .null => some .null
  | .bool b => some (.bool b)
  | .int n spelling => some (.int n spelling)
  | .float x spelling => some (.float x spelling)
  | .string s => some (.string s)
  | _ => none

theorem Literal.of?_eq_some_iff {l : Lexeme} {x : Literal} :
    Literal.of? l = some x ↔ l = x.lexeme := by
  constructor
  · intro h
    cases l <;> cases h <;> rfl
  · rintro rfl
    cases x <;> rfl

theorem Additive.of?_eq_some_iff {l : Lexeme} {o : Additive} :
    Additive.of? l = some o ↔ l = o.lexeme := by
  constructor
  · intro h
    cases l <;> cases h <;> rfl
  · rintro rfl
    cases o <;> rfl

theorem Multiplicative.of?_eq_some_iff {l : Lexeme} {o : Multiplicative} :
    Multiplicative.of? l = some o ↔ l = o.lexeme := by
  constructor
  · intro h
    cases l <;> cases h <;> rfl
  · rintro rfl
    cases o <;> rfl

structure Level (c c' : Category) where
  Op : Type
  lexeme : Op → Lexeme
  operator : Op → Operator
  of? : Lexeme → Option Op
  first : Derivation c' → Derivation c
  join : Derivation c → Op → Derivation c' → Derivation c
  of?_eq_some_iff : ∀ {l : Lexeme} {o : Op}, of? l = some o ↔ l = lexeme o
  of?_endOfInput : of? .endOfInput = none
  lexemes_first : ∀ b, (first b).lexemes = b.lexemes
  lexemes_join : ∀ a o b, (join a o b).lexemes = a.lexemes ++ lexeme o :: b.lexemes
  expr_first : ∀ b, (first b).expr = b.expr
  expr_join : ∀ a o b, (join a o b).expr = .binary (operator o) a.expr b.expr
  nesting_first : ∀ b, (first b).nesting = b.nesting
  nesting_join : ∀ a o b, (join a o b).nesting = max a.nesting b.nesting
  generated : ∀ {P : Derivation c → Prop}, (∀ b, P (first b)) →
    (∀ a o b, P a → P (join a o b)) → ∀ d, P d

theorem Derivation.term_induction {P : Derivation .term → Prop} (hf : ∀ b, P (.factor b))
    (hj : ∀ a o b, P a → P (.multiply a o b)) : ∀ d, P d
  | .factor b => hf b
  | .multiply a o b => hj a o b (term_induction hf hj a)

theorem Derivation.expression_induction {P : Derivation .expression → Prop} (hf : ∀ b, P (.term b))
    (hj : ∀ a o b, P a → P (.add a o b)) : ∀ d, P d
  | .term b => hf b
  | .add a o b => hj a o b (expression_induction hf hj a)

def terms : Level .term .factor where
  Op := Multiplicative
  lexeme := Multiplicative.lexeme
  operator := Multiplicative.operator
  of? := Multiplicative.of?
  first := .factor
  join := .multiply
  of?_eq_some_iff := Multiplicative.of?_eq_some_iff
  of?_endOfInput := rfl
  lexemes_first _ := rfl
  lexemes_join _ _ _ := rfl
  expr_first _ := rfl
  expr_join _ _ _ := rfl
  nesting_first _ := rfl
  nesting_join _ _ _ := rfl
  generated := Derivation.term_induction

def sums : Level .expression .term where
  Op := Additive
  lexeme := Additive.lexeme
  operator := Additive.operator
  of? := Additive.of?
  first := .term
  join := .add
  of?_eq_some_iff := Additive.of?_eq_some_iff
  of?_endOfInput := rfl
  lexemes_first _ := rfl
  lexemes_join _ _ _ := rfl
  expr_first _ := rfl
  expr_join _ _ _ := rfl
  nesting_first _ := rfl
  nesting_join _ _ _ := rfl
  generated := Derivation.expression_induction

namespace Level

variable {c c' : Category} (L : Level c c')

def readRest (operand : Reader c') : Nat → Derivation c → Reader c
  | 0, d, ls => some (d, ls)
  | _ + 1, d, [] => some (d, [])
  | n + 1, d, l :: ls =>
    match L.of? l with
    | none => some (d, l :: ls)
    | some o =>
      match operand ls with
      | none => none
      | some (b, rest) => readRest operand n (L.join d o b) rest

def read (operand : Reader c') : Reader c := fun ls =>
  match operand ls with
  | none => none
  | some (b, rest) => L.readRest operand rest.length (L.first b) rest

def Ends (ls : List Lexeme) : Prop := ∀ l ∈ ls.head?, L.of? l = none

theorem induction {P : Derivation c → Prop} (operand : ∀ b, P (L.first b))
    (joined : ∀ a o b, P a → P (L.join a o b)) (d : Derivation c) : P d :=
  L.generated operand joined d

end Level

def readAtom (inner : Option (Reader .factor)) : Reader .atom
  | [] => none
  | .leftParen :: ls =>
    match inner with
    | none => none
    | some factor =>
      match sums.read (terms.read factor) ls with
      | some (d, .rightParen :: rest) => some (.parens d, rest)
      | _ => none
  | l :: ls => (Literal.of? l).map fun x => (.literal x, ls)

def readFactorWith (inner : Option (Reader .factor)) : Reader .factor
  | [] => none
  | l :: ls =>
    match Additive.of? l with
    | none => (readAtom inner (l :: ls)).map fun (d, rest) => (.atom d, rest)
    | some s =>
      match inner with
      | none => none
      | some factor => (factor ls).map fun (d, rest) => (.sign s d, rest)

def readFactor : Nat → Reader .factor
  | 0 => readFactorWith none
  | n + 1 => readFactorWith (some (readFactor n))

def readExpression (n : Nat) : Reader .expression := sums.read (terms.read (readFactor n))

def Sound {c : Category} (n : Nat) (r : Reader c) : Prop :=
  ∀ ls d rest, r ls = some (d, rest) → ls = d.lexemes ++ rest ∧ d.nesting ≤ n

def Complete {c : Category} (n : Nat) (follows : List Lexeme → Prop) (r : Reader c) : Prop :=
  ∀ d : Derivation c, d.nesting ≤ n → ∀ rest, follows rest → r (d.lexemes ++ rest) = some (d, rest)

namespace Level

variable {c c' : Category} {L : Level c c'} {operand : Reader c'} {n : Nat}

theorem readRest_sound (h : Sound n operand) {k : Nat} {a d : Derivation c} {ls rest : List Lexeme}
    (ha : a.nesting ≤ n) (hr : L.readRest operand k a ls = some (d, rest)) :
    a.lexemes ++ ls = d.lexemes ++ rest ∧ d.nesting ≤ n := by
  fun_induction readRest L operand k a ls with
  | case1 a ls | case2 k a | case3 k a l ls ho =>
    cases hr
    exact ⟨rfl, ha⟩
  | case4 k a l ls o ho hn => cases hr
  | case5 k a l ls o ho b rest' hb ih =>
    obtain ⟨rfl, hb'⟩ := h _ _ _ hb
    have hj : (L.join a o b).nesting ≤ n := by
      rw [L.nesting_join]
      omega
    have hk := ih hj hr
    rwa [L.lexemes_join, ← L.of?_eq_some_iff.1 ho, List.append_assoc, List.cons_append] at hk

theorem read_sound (h : Sound n operand) : Sound n (L.read operand) := by
  intro ls d rest hr
  unfold read at hr
  split at hr
  · cases hr
  · rename_i b rest' hb
    obtain ⟨rfl, hb'⟩ := h _ _ _ hb
    have hk := readRest_sound h (by rwa [L.nesting_first]) hr
    rwa [L.lexemes_first] at hk

/-- After the operators of a derivation, the reader stands behind it with the rest to read. -/
theorem read_reaches {F : List Lexeme → Prop} (h : Complete n F operand)
    (hF : ∀ (o : L.Op) ls, F (L.lexeme o :: ls)) (d : Derivation c) (hd : d.nesting ≤ n)
    (rest : List Lexeme) (hr : F rest) :
    ∃ k, rest.length ≤ k ∧ L.read operand (d.lexemes ++ rest) = L.readRest operand k d rest := by
  induction d using L.induction generalizing rest with
  | operand b =>
    rw [L.nesting_first] at hd
    refine ⟨rest.length, Nat.le_refl _, ?_⟩
    rw [L.lexemes_first, read, h b hd rest hr]
  | joined a o b ih =>
    rw [L.nesting_join] at hd
    obtain ⟨k, hk, he⟩ := ih (by omega) (L.lexeme o :: (b.lexemes ++ rest)) (hF o _)
    obtain ⟨j, rfl⟩ : ∃ j, k = j + 1 := ⟨k - 1, by simp at hk; omega⟩
    refine ⟨j, by simp at hk; omega, ?_⟩
    rw [L.lexemes_join, List.append_assoc, List.cons_append, he, readRest,
      L.of?_eq_some_iff.2 rfl]
    simp only [h b (by omega) rest hr]

theorem readRest_ends {k : Nat} {d : Derivation c} {rest : List Lexeme} (h : L.Ends rest) :
    L.readRest operand k d rest = some (d, rest) := by
  cases k with
  | zero => rfl
  | succ k =>
    cases rest with
    | nil => rfl
    | cons l ls => rw [readRest, h l rfl]

theorem read_complete {F : List Lexeme → Prop} (h : Complete n F operand)
    (hF : ∀ (o : L.Op) ls, F (L.lexeme o :: ls)) :
    Complete n (fun rest => F rest ∧ L.Ends rest) (L.read operand) := by
  rintro d hd rest ⟨hr, he⟩
  obtain ⟨k, -, hk⟩ := read_reaches h hF d hd rest hr
  rw [hk, readRest_ends he]

end Level

theorem terms_ends_additive (o : Additive) (ls : List Lexeme) :
    terms.Ends (o.lexeme :: ls) := by
  intro l hl
  cases hl
  cases o <;> rfl

def Closes (rest : List Lexeme) : Prop := (True ∧ terms.Ends rest) ∧ sums.Ends rest

theorem expression_complete {n : Nat} {factor : Reader .factor}
    (h : Complete n (fun _ => True) factor) :
    Complete n Closes (sums.read (terms.read factor)) :=
  Level.read_complete (Level.read_complete h fun _ _ => trivial)
    fun o ls => ⟨trivial, terms_ends_additive o ls⟩

theorem closes_nil : Closes [] := ⟨⟨trivial, by nofun⟩, by nofun⟩

theorem closes_rightParen (ls : List Lexeme) : Closes (.rightParen :: ls) :=
  ⟨⟨trivial, by rintro l ⟨⟩; rfl⟩, by rintro l ⟨⟩; rfl⟩

theorem closes_endOfInput (ls : List Lexeme) : Closes (.endOfInput :: ls) :=
  ⟨⟨trivial, by rintro l ⟨⟩; rfl⟩, by rintro l ⟨⟩; rfl⟩

theorem readFactorWith_literal (inner : Option (Reader .factor)) (x : Literal)
    (rest : List Lexeme) :
    readFactorWith inner ((Derivation.literal x).lexemes ++ rest) =
      some (.atom (.literal x), rest) := by
  cases x <;> rfl

theorem readFactor_complete (n : Nat) : Complete n (fun _ => True) (readFactor n) := by
  induction n with
  | zero =>
    intro d hd rest _
    cases d with
    | atom a =>
      cases a with
      | literal x => exact readFactorWith_literal none x rest
      | parens e => simp [Derivation.nesting] at hd
    | sign s d => simp [Derivation.nesting] at hd
  | succ n ih =>
    intro d hd rest _
    cases d with
    | atom a =>
      cases a with
      | literal x => exact readFactorWith_literal _ x rest
      | parens e =>
        simp only [Derivation.nesting, Nat.add_le_add_iff_right] at hd
        have he := expression_complete ih e hd (.rightParen :: rest) (closes_rightParen rest)
        simp [Derivation.lexemes, readFactor, readFactorWith, Additive.of?, readAtom, he]
    | sign s d =>
      simp only [Derivation.nesting, Nat.add_le_add_iff_right] at hd
      have he := ih d hd rest trivial
      have hs : Additive.of? s.lexeme = some s := Additive.of?_eq_some_iff.2 rfl
      simp [Derivation.lexemes, readFactor, readFactorWith, hs, he]

theorem readAtom_sound {n : Nat} {inner : Option (Reader .factor)}
    (h : ∀ r, inner = some r → ∃ m, n = m + 1 ∧ Sound m r) : Sound n (readAtom inner) := by
  intro ls d rest hr
  unfold readAtom at hr
  split at hr
  · cases hr
  · split at hr
    · cases hr
    · rename_i ls factor
      obtain ⟨m, rfl, hm⟩ := h factor rfl
      split at hr
      · rename_i e rest' he
        cases hr
        obtain ⟨rfl, hn⟩ := Level.read_sound (Level.read_sound hm) _ _ _ he
        exact ⟨by simp [Derivation.lexemes], by simpa [Derivation.nesting] using hn⟩
      · cases hr
  · rename_i l ls hl
    obtain ⟨x, hx, he⟩ := Option.map_eq_some_iff.1 hr
    cases he
    rw [Literal.of?_eq_some_iff.1 hx]
    exact ⟨rfl, Nat.zero_le _⟩

theorem readFactorWith_sound {n : Nat} {inner : Option (Reader .factor)}
    (h : ∀ r, inner = some r → ∃ m, n = m + 1 ∧ Sound m r) : Sound n (readFactorWith inner) := by
  intro ls d rest hr
  unfold readFactorWith at hr
  split at hr
  · cases hr
  · rename_i l ls
    split at hr
    · obtain ⟨⟨e, rest'⟩, he, heq⟩ := Option.map_eq_some_iff.1 hr
      cases heq
      exact readAtom_sound h _ _ _ he
    · rename_i s hs
      split at hr
      · cases hr
      · rename_i factor
        obtain ⟨⟨e, rest'⟩, he, heq⟩ := Option.map_eq_some_iff.1 hr
        cases heq
        obtain ⟨m, rfl, hm⟩ := h factor rfl
        obtain ⟨rfl, hn⟩ := hm _ _ _ he
        rw [Additive.of?_eq_some_iff.1 hs]
        exact ⟨by simp [Derivation.lexemes], by simpa [Derivation.nesting] using hn⟩

theorem readFactor_sound (n : Nat) : Sound n (readFactor n) := by
  induction n with
  | zero => exact readFactorWith_sound (by nofun)
  | succ n ih =>
    refine readFactorWith_sound fun r hr => ?_
    cases hr
    exact ⟨n, rfl, ih⟩

theorem readExpression_complete (n : Nat) : Complete n Closes (readExpression n) :=
  expression_complete (readFactor_complete n)

theorem readExpression_sound (n : Nat) : Sound n (readExpression n) :=
  Level.read_sound (Level.read_sound (readFactor_sound n))

/-- Lexemes have one derivation at most. -/
theorem derivation_unique {d d' : Derivation .expression} (h : d.lexemes = d'.lexemes) :
    d = d' := by
  have h₁ := readExpression_complete (max d.nesting d'.nesting) d (Nat.le_max_left ..) [] closes_nil
  have h₂ := readExpression_complete (max d.nesting d'.nesting) d'
    (Nat.le_max_right ..) [] closes_nil
  rw [h] at h₁
  cases h₁.symm.trans h₂
  rfl

theorem endOfInput_not_mem {c : Category} (d : Derivation c) : Lexeme.endOfInput ∉ d.lexemes := by
  induction d with
  | literal l => cases l <;> simp [Derivation.lexemes, Literal.lexeme]
  | parens d ih | atom d ih | factor d ih | term d ih => simpa [Derivation.lexemes] using ih
  | sign s d ih => cases s <;> simpa [Derivation.lexemes, Additive.lexeme] using ih
  | multiply a o b iha ihb => cases o <;> simp [Derivation.lexemes, Multiplicative.lexeme, iha, ihb]
  | add a o b iha ihb => cases o <;> simp [Derivation.lexemes, Additive.lexeme, iha, ihb]

theorem head_dropWhile (ls : List Lexeme) :
    (ls.dropWhile (· ≠ .endOfInput)).headD .endOfInput = .endOfInput := by
  induction ls with
  | nil => rfl
  | cons l ls ih =>
    by_cases hl : l = .endOfInput
    · simp [hl]
    · simpa [List.dropWhile_cons, hl] using ih

theorem sentence_append {taken : List Token} (rest : List Token)
    (h : Lexeme.endOfInput ∉ taken.map Token.lexeme) :
    sentence (taken ++ rest) = taken.map Token.lexeme ++ sentence rest := by
  unfold sentence
  rw [List.map_append, List.takeWhile_append_of_pos]
  intro l hl
  rw [decide_eq_true_iff]
  rintro rfl
  exact h hl

theorem sentence_cons {token : Token} (h : token.lexeme ≠ .endOfInput) (rest : List Token) :
    sentence (token :: rest) = token.lexeme :: sentence rest := by
  simp [sentence, h]

theorem sentence_of_head {tokens : List Token}
    (h : (tokens.map Token.lexeme).headD .endOfInput = .endOfInput) : sentence tokens = [] := by
  cases tokens with
  | nil => rfl
  | cons token rest =>
    replace h : token.lexeme = .endOfInput := h
    simp [sentence, h]

theorem closes_of_head {rest : List Lexeme} (h : rest.headD .endOfInput = .endOfInput) :
    Closes rest := by
  cases rest with
  | nil => exact closes_nil
  | cons l ls =>
    obtain rfl : l = .endOfInput := h
    exact closes_endOfInput ls

/-- Reading up to the end of input finds the derivation of a sentence, and nothing else. -/
theorem readExpression_iff {n : Nat} {tokens : List Token} {d : Derivation .expression} :
    (∃ rest, readExpression n (tokens.map Token.lexeme) = some (d, rest) ∧
        rest.headD .endOfInput = .endOfInput) ↔
      d.lexemes = sentence tokens ∧ d.nesting ≤ n := by
  constructor
  · rintro ⟨rest, hr, he⟩
    obtain ⟨hls, hn⟩ := readExpression_sound n _ _ _ hr
    refine ⟨?_, hn⟩
    have hd : ∀ l ∈ d.lexemes, decide (l ≠ Lexeme.endOfInput) = true := by
      intro l hl
      have := endOfInput_not_mem d
      grind
    rw [sentence, hls, List.takeWhile_append_of_pos hd]
    cases rest with
    | nil => simp
    | cons l ls =>
      obtain rfl : l = .endOfInput := he
      simp
  · rintro ⟨hd, hn⟩
    refine ⟨(tokens.map Token.lexeme).dropWhile (· ≠ .endOfInput), ?_, head_dropWhile _⟩
    have h := readExpression_complete n d hn _
      (closes_of_head (head_dropWhile (tokens.map Token.lexeme)))
    rwa [hd, sentence, List.takeWhile_append_dropWhile] at h

end OnePass.Grammar
