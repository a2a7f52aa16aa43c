import OnePass.Proofs.Expr.Parsing

/-!
# Beginnings of sentences

Some lexemes begin a derivation, and some next lexeme may be impossible behind them. That a lexeme
is impossible is told by a reader that finds nothing, whatever comes after the lexeme: what a reader
of one category refuses, the readers of the categories around it refuse too.
-/

set_option autoImplicit false

namespace OnePass.Grammar

def Begins (c : Category) (ls : List Lexeme) : Prop := ∃ d : Derivation c, ls <+: d.lexemes

/-- Behind `ls`, the reader can do nothing with `next`. The end of input stands behind the last
lexeme of all. -/
def Refuses {c : Category} (r : Reader c) (ls : List Lexeme) (next : Lexeme) : Prop :=
  ∀ tail : List Lexeme, tail.headD .endOfInput = next → r (ls ++ tail) = none

theorem begins_lexemes {c : Category} (d : Derivation c) : Begins c d.lexemes :=
  ⟨d, List.prefix_rfl⟩

theorem begins_atom_nil : Begins .atom [] := ⟨.literal .null, List.nil_prefix⟩

theorem Begins.parens {ls : List Lexeme} (h : Begins .expression ls) :
    Begins .atom (.leftParen :: ls) := by
  obtain ⟨d, hd⟩ := h
  refine ⟨.parens d, ?_⟩
  exact List.cons_prefix_cons.2 ⟨rfl, hd.trans (List.prefix_append _ _)⟩

theorem Begins.atom {ls : List Lexeme} (h : Begins .atom ls) : Begins .factor ls := by
  obtain ⟨d, hd⟩ := h
  exact ⟨.atom d, hd⟩

theorem Begins.sign {ls : List Lexeme} (s : Additive) (h : Begins .factor ls) :
    Begins .factor (s.lexeme :: ls) := by
  obtain ⟨d, hd⟩ := h
  exact ⟨.sign s d, List.cons_prefix_cons.2 ⟨rfl, hd⟩⟩

namespace Level

variable {c c' : Category} {L : Level c c'} {operand : Reader c'} {ls : List Lexeme}
  {next : Lexeme}

theorem begins_first (L : Level c c') (h : Begins c' ls) : Begins c ls := by
  obtain ⟨b, hb⟩ := h
  exact ⟨L.first b, by rwa [L.lexemes_first]⟩

theorem begins_join (L : Level c c') (a : Derivation c) (o : L.Op) (h : Begins c' ls) :
    Begins c (a.lexemes ++ L.lexeme o :: ls) := by
  obtain ⟨b, hb⟩ := h
  refine ⟨L.join a o b, ?_⟩
  rw [L.lexemes_join, List.prefix_append_right_inj]
  exact List.cons_prefix_cons.2 ⟨rfl, hb⟩

theorem refuses_first (L : Level c c') (h : Refuses operand ls next) :
    Refuses (L.read operand) ls next := by
  intro tail ht
  rw [read, h tail ht]

/-- What an operand refuses is refused behind operands that were joined before. -/
theorem refuses_join {n : Nat} {F : List Lexeme → Prop} (hc : Complete n F operand)
    (hF : ∀ (o : L.Op) ls, F (L.lexeme o :: ls)) {a : Derivation c} (ha : a.nesting ≤ n) (o : L.Op)
    (h : Refuses operand ls next) :
    Refuses (L.read operand) (a.lexemes ++ L.lexeme o :: ls) next := by
  intro tail ht
  obtain ⟨k, hk, he⟩ := read_reaches hc hF a ha (L.lexeme o :: (ls ++ tail)) (hF o _)
  rw [List.length_cons] at hk
  obtain ⟨j, rfl⟩ : ∃ j, k = j + 1 := ⟨k - 1, by omega⟩
  rw [List.append_assoc, List.cons_append, he, readRest, L.of?_eq_some_iff.2 rfl]
  simp only [h tail ht]

theorem ends_iff (L : Level c c') : L.Ends ls ↔ L.of? (ls.headD .endOfInput) = none := by
  cases ls with
  | nil => exact ⟨fun _ => L.of?_endOfInput, fun _ l hl => by cases hl⟩
  | cons l ls =>
    constructor
    · intro h
      exact h l rfl
    · intro h l' hl
      cases hl
      exact h

end Level

theorem Closes.of_head {rest rest' : List Lexeme} (h : Closes rest)
    (hh : rest'.headD .endOfInput = rest.headD .endOfInput) : Closes rest' := by
  obtain ⟨⟨-, ht⟩, hs⟩ := h
  rw [Level.ends_iff, ← hh, ← Level.ends_iff] at ht hs
  exact ⟨⟨trivial, ht⟩, hs⟩

def readBelow : Nat → Option (Reader .factor)
  | 0 => none
  | n + 1 => some (readFactor n)

theorem readFactor_eq (n : Nat) : readFactor n = readFactorWith (readBelow n) := by
  cases n <;> rfl

section Factors

variable {ls : List Lexeme} {next : Lexeme}

theorem Refuses.parens {n : Nat} (h : Refuses (readExpression n) ls next) :
    Refuses (readAtom (readBelow (n + 1))) (.leftParen :: ls) next := by
  intro tail ht
  have he : sums.read (terms.read (readFactor n)) (ls ++ tail) = none := h tail ht
  rw [List.cons_append, readBelow, readAtom]
  simp only [he]

theorem refuses_unclosed {n : Nat} {d : Derivation .expression} (hd : d.nesting ≤ n)
    {rest : List Lexeme} (hc : Closes rest) (hr : rest.headD .endOfInput ≠ .rightParen) :
    Refuses (readAtom (readBelow (n + 1))) (.leftParen :: d.lexemes) (rest.headD .endOfInput) := by
  intro tail ht
  have he : sums.read (terms.read (readFactor n)) (d.lexemes ++ tail) = some (d, tail) :=
    readExpression_complete n d hd tail (hc.of_head ht)
  rw [List.cons_append, readBelow, readAtom]
  simp only [he]
  rw [← ht] at hr
  cases tail with
  | nil => rfl
  | cons l tail =>
    rw [List.headD_cons] at hr
    split
    · rename_i hs
      cases hs
      exact absurd rfl hr
    · rfl

theorem refuses_operand (inner : Option (Reader .factor)) (hl : next ≠ .leftParen)
    (hx : Literal.of? next = none) : Refuses (readAtom inner) [] next := by
  intro tail ht
  rw [List.nil_append]
  cases tail with
  | nil => rfl
  | cons l tail =>
    obtain rfl : l = next := ht
    rw [readAtom]
    · rw [hx]
      rfl
    · exact hl

theorem refuses_leftParen : Refuses (readAtom (readBelow 0)) [] .leftParen := by
  intro tail ht
  cases tail with
  | nil => cases ht
  | cons l tail =>
    obtain rfl : l = .leftParen := ht
    rfl

theorem Refuses.atom {n : Nat} (h : Refuses (readAtom (readBelow n)) ls next)
    (hs : Additive.of? ((ls ++ [next]).headD .endOfInput) = none) :
    Refuses (readFactor n) ls next := by
  intro tail ht
  have hn := h tail ht
  rw [readFactor_eq]
  cases ls with
  | nil =>
    rw [List.nil_append] at hn ⊢
    cases tail with
    | nil => rfl
    | cons l tail =>
      obtain rfl : l = next := ht
      replace hs : Additive.of? l = none := hs
      rw [readFactorWith, hs]
      simp only [hn, Option.map_none]
  | cons l ls =>
    replace hs : Additive.of? l = none := hs
    rw [List.cons_append] at hn ⊢
    rw [readFactorWith, hs]
    simp only [hn, Option.map_none]

theorem Refuses.sign {n : Nat} (s : Additive) (h : Refuses (readFactor n) ls next) :
    Refuses (readFactor (n + 1)) (s.lexeme :: ls) next := by
  intro tail ht
  have hs : Additive.of? s.lexeme = some s := Additive.of?_eq_some_iff.2 rfl
  rw [List.cons_append, readFactor, readFactorWith, hs]
  simp only [h tail ht, Option.map_none]

theorem refuses_sign (s : Additive) : Refuses (readFactor 0) [] s.lexeme := by
  intro tail ht
  have hs : Additive.of? s.lexeme = some s := Additive.of?_eq_some_iff.2 rfl
  cases tail with
  | nil => cases s <;> cases ht
  | cons l tail =>
    obtain rfl : l = s.lexeme := ht
    rw [List.nil_append, readFactor, readFactorWith, hs]

end Factors

def readSentence (n : Nat) : Reader .expression := fun ls =>
  match readExpression n ls with
  | none => none
  | some (d, rest) => if rest.headD .endOfInput = .endOfInput then some (d, rest) else none

section Sentences

variable {n : Nat} {ls : List Lexeme} {next : Lexeme} {d : Derivation .expression}

theorem Refuses.sentence (h : Refuses (readExpression n) ls next) :
    Refuses (readSentence n) ls next := by
  intro tail ht
  rw [readSentence, h tail ht]

theorem refuses_trailing (hd : d.nesting ≤ n) {rest : List Lexeme} (hc : Closes rest)
    (hr : rest.headD .endOfInput ≠ .endOfInput) :
    Refuses (readSentence n) d.lexemes (rest.headD .endOfInput) := by
  intro tail ht
  rw [readSentence, readExpression_complete n d hd tail (hc.of_head ht)]
  dsimp only
  rw [if_neg (ht ▸ hr)]

theorem readSentence_lexemes (hd : d.nesting ≤ n) : readSentence n d.lexemes = some (d, []) := by
  have h := readExpression_complete n d hd [] closes_nil
  rw [List.append_nil] at h
  rw [readSentence, h]
  rfl

/-- No sentence goes on with a lexeme that is refused. -/
theorem Refuses.not_prefix (h : Refuses (readSentence n) ls next) (hd : d.nesting ≤ n) :
    ¬ls ++ [next] <+: d.lexemes := by
  rintro ⟨tail, ht⟩
  have hnone := h (next :: tail) rfl
  rw [List.append_assoc, List.singleton_append] at ht
  rw [ht, readSentence_lexemes hd] at hnone
  cases hnone

/-- What may not end is no sentence. -/
theorem Refuses.not_sentence (h : Refuses (readSentence n) ls .endOfInput) (hd : d.nesting ≤ n) :
    d.lexemes ≠ ls := by
  rintro rfl
  have hnone := h [] rfl
  rw [List.append_nil, readSentence_lexemes hd] at hnone
  cases hnone

end Sentences

end OnePass.Grammar
