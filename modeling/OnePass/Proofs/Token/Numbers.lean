import Mathlib.Data.List.Induction
import Mathlib.Data.Nat.Digits.Defs
import OnePass.Proofs.Binary64.Range
import OnePass.Proofs.Token.Lexing

/-!
# Number literals

A number literal ends where the grammar of numbers lets it end last: a point without digits behind
it, or the mark of an exponent without digits, is left to the next token. Its value is the sum that
the weights of its digits give. Decimal integers end at `2^63`, bit patterns at `2^64`, and decimal
fractions where doubles do.
-/

set_option autoImplicit false

namespace OnePass

open Text

/-- The beginning `u` of a text has a property, and no longer one has. -/
structure Longest (P : Text → Prop) (u s : Text) : Prop where
  holds : P u
  begins : u <+: s
  longest : ∀ v, P v → v <+: s → v.length ≤ u.length

def Text.placeValue (base : Nat) (ds : Text) : Nat := Nat.ofDigits base (ds.reverse.map digitValue)

theorem Text.valueOf_eq_placeValue (base : Nat) (ds : Text) :
    valueOf base ds = placeValue base ds := by
  induction ds using List.reverseRecOn with
  | nil => rfl
  | append_singleton ds d ih =>
    rw [valueOf, List.foldl_append, ← valueOf, ih]
    simp only [placeValue, List.reverse_append, List.reverse_singleton, List.singleton_append,
      List.map_cons, Nat.ofDigits_cons, List.foldl_cons, List.foldl_nil]
    rw [Nat.mul_comm, Nat.add_comm]

def Digits (s : Text) : Prop := s ≠ [] ∧ ∀ b ∈ s, isDigit b

def IsFraction (s : Text) : Prop := ∃ ds, Digits ds ∧ s = 0x2e :: ds

def IsExponent (s : Text) : Prop :=
  ∃ mark sign ds, (mark = 0x65 ∨ mark = 0x45) ∧ (sign = [] ∨ sign = [0x2b] ∨ sign = [0x2d]) ∧
    Digits ds ∧ s = mark :: (sign ++ ds)

structure DecimalLiteral where
  whole : Text
  fraction : Text
  exponent : Text
  whole_digits : Digits whole
  fraction_form : fraction = [] ∨ IsFraction fraction
  exponent_form : exponent = [] ∨ IsExponent exponent

namespace DecimalLiteral

def spelling (n : DecimalLiteral) : Text := n.whole ++ n.fraction ++ n.exponent

def Spells (s : Text) : Prop := ∃ n : DecimalLiteral, n.spelling = s

def digits (n : DecimalLiteral) : Text := n.whole ++ n.fraction.drop 1

def scale (n : DecimalLiteral) : Int :=
  Lexeme.exponentValue n.exponent - (n.fraction.drop 1).length

def value (n : DecimalLiteral) : ℚ := placeValue 10 n.digits * 10 ^ n.scale

/-- The lexeme is what a decimal literal denotes: an integer if it has neither a fraction nor an
exponent, a double otherwise, and illegal if it is out of range. -/
structure Denotes (n : DecimalLiteral) (l : Lexeme) : Prop where
  int : n.fraction = [] ∧ n.exponent = [] → placeValue 10 n.whole ≤ 0x7fffffffffffffff →
    ∃ v : Int64, l = .int v n.spelling ∧ v.toInt = placeValue 10 n.whole
  large : n.fraction = [] ∧ n.exponent = [] → 0x7fffffffffffffff < placeValue 10 n.whole →
    l = .illegal (utf8 "integer literal " ++ n.spelling ++ utf8 " out of range")
  float : ¬(n.fraction = [] ∧ n.exponent = []) → n.value < Binary64.overflowLimit →
    ∃ v, Binary64.ofDecimal? (placeValue 10 n.digits) n.scale = some v ∧ l = .float v n.spelling
  infinite : ¬(n.fraction = [] ∧ n.exponent = []) → Binary64.overflowLimit ≤ n.value →
    l = .illegal (utf8 "float literal " ++ n.spelling ++ utf8 " out of range")

end DecimalLiteral

inductive BaseMark : UInt8 → Nat → Prop where
  | smallHex : BaseMark 0x78 16
  | largeHex : BaseMark 0x58 16
  | smallBinary : BaseMark 0x62 2
  | largeBinary : BaseMark 0x42 2

structure IsPattern (base : Nat) (run : Text) : Prop where
  nonempty : run ≠ []
  digits : ∀ b ∈ run, digitValue b < base
  fits : placeValue base run < 0x10000000000000000

structure PatternDenotes (base : Nat) (mark : UInt8) (run : Text) (l : Lexeme) : Prop where
  int : IsPattern base run →
    ∃ v : Int64, l = .int v (0x30 :: mark :: run) ∧ v.toUInt64.toNat = placeValue base run
  malformed : ¬IsPattern base run → l = Lexeme.malformedNumber (0x30 :: mark :: run)

namespace Lexeme

section Parts

variable {e f t : Text}

theorem isMark_head_exponent (h : IsExponent e) (t : Text) : ∀ b ∈ (e ++ t).head?, isMark b := by
  obtain ⟨mark, sign, ds, hmark, -, -, rfl⟩ := h
  rcases hmark with rfl | rfl <;> simp <;> decide

theorem takeWhile_fraction (h : IsFraction f) (t : Text) : (f ++ t).takeWhile isDigit = [] := by
  obtain ⟨ds, -, rfl⟩ := h
  rfl

theorem takeWhile_exponent (h : IsExponent e) (t : Text) : (e ++ t).takeWhile isDigit = [] := by
  apply takeWhile_append_stop (x := []) (by simp)
  intro b hb
  exact isDigit_of_isMark (isMark_head_exponent h t b hb)

theorem takeWhile_digits {ds : Text} (h : Digits ds) (t : Text) :
    (ds ++ t).takeWhile isDigit = ds ++ t.takeWhile isDigit :=
  List.takeWhile_append_of_pos h.2

theorem fractionLength_fraction (h : IsFraction f) (t : Text) :
    fractionLength (f ++ t) = f.length + (t.takeWhile isDigit).length := by
  obtain ⟨ds, ⟨hne, hds⟩, rfl⟩ := h
  cases ds with
  | nil => exact absurd rfl hne
  | cons d ds =>
    rw [List.forall_mem_cons] at hds
    simp [fractionLength, hds.1, List.takeWhile_append_of_pos hds.2]
    omega

theorem signLength_sign {sign ds : Text} (hsign : sign = [] ∨ sign = [0x2b] ∨ sign = [0x2d])
    (hds : Digits ds) (t : Text) : signLength (sign ++ ds ++ t) = sign.length := by
  rcases hsign with rfl | rfl | rfl
  · obtain ⟨hne, hds⟩ := hds
    cases ds with
    | nil => exact absurd rfl hne
    | cons d ds =>
      have hd := hds d (by simp)
      have hplain : d ≠ 0x2b ∧ d ≠ 0x2d := by
        constructor <;> rintro rfl <;> exact absurd hd (by decide)
      simp [signLength, hplain]
  · rfl
  · rfl

theorem exponentLength_exponent (h : IsExponent e) (t : Text) :
    exponentLength (e ++ t) = e.length + (t.takeWhile isDigit).length := by
  obtain ⟨mark, sign, ds, hmark, hsign, hds, rfl⟩ := h
  have hmark' : (mark = 0x65 || mark = 0x45) = true := by simpa using hmark
  have hpos : 0 < ds.length := List.length_pos_iff.2 hds.1
  have hrun : ((sign ++ ds ++ t).drop sign.length).takeWhile isDigit =
      ds ++ t.takeWhile isDigit := by
    rw [List.append_assoc, List.drop_left, takeWhile_digits hds]
  rw [List.cons_append, exponentLength, if_pos hmark']
  simp only [signLength_sign hsign hds t, hrun, List.length_append, List.length_cons]
  rw [if_neg (by omega)]
  omega

end Parts

def tailLength (s : Text) : Nat := fractionLength s + exponentLength (s.drop (fractionLength s))

theorem length_le_tailLength {f e : Text} (hf : f = [] ∨ IsFraction f)
    (he : e = [] ∨ IsExponent e) (t : Text) : f.length + e.length ≤ tailLength (f ++ (e ++ t)) := by
  unfold tailLength
  rcases hf with rfl | hf
  · rcases he with rfl | he
    · exact Nat.zero_le _
    · rw [List.nil_append, fractionLength_of_mark (isMark_head_exponent he t), List.drop_zero,
        exponentLength_exponent he, List.length_nil]
      omega
  · rw [fractionLength_fraction hf]
    rcases he with rfl | he
    · simp only [List.length_nil]
      omega
    · rw [takeWhile_exponent he, List.length_nil, Nat.add_zero, List.drop_left,
        exponentLength_exponent he]
      omega

theorem length_decimalParts {s whole fraction exponent : Text}
    (h : decimalParts s = (whole, fraction, exponent)) :
    (whole ++ fraction ++ exponent).length = whole.length + tailLength (s.drop whole.length) := by
  cases h
  generalize s.drop (s.takeWhile isDigit).length = r
  have hfraction : (r.take (fractionLength r)).length = fractionLength r :=
    List.length_take_of_le (fractionLength_le r)
  rw [hfraction, List.length_append, List.length_append, hfraction,
    List.length_take_of_le (exponentLength_le _), tailLength, Nat.add_assoc]

/-- No longer decimal literal begins a text. -/
theorem length_spelling_le {s whole fraction exponent : Text}
    (h : decimalParts s = (whole, fraction, exponent)) (n : DecimalLiteral)
    (hn : n.spelling <+: s) : n.spelling.length ≤ (whole ++ fraction ++ exponent).length := by
  rw [length_decimalParts h]
  obtain ⟨t, rfl⟩ := hn
  have hwhole : whole = (n.spelling ++ t).takeWhile isDigit := by
    cases h
    rfl
  have hspelling : n.spelling ++ t = n.whole ++ (n.fraction ++ (n.exponent ++ t)) := by
    simp [DecimalLiteral.spelling]
  have hlength : n.spelling.length = n.whole.length + (n.fraction.length + n.exponent.length) := by
    simp [DecimalLiteral.spelling]
  rw [hspelling, takeWhile_digits n.whole_digits] at hwhole
  rw [hspelling, hlength]
  by_cases hrun : (n.fraction ++ (n.exponent ++ t)).takeWhile isDigit = []
  · rw [hrun, List.append_nil] at hwhole
    rw [hwhole, List.drop_left]
    exact Nat.add_le_add_left (length_le_tailLength n.fraction_form n.exponent_form t) _
  · -- More digits follow, so that there is neither a fraction nor an exponent.
    have hfraction : n.fraction = [] :=
      n.fraction_form.resolve_right fun h => hrun (takeWhile_fraction h _)
    have hexponent : n.exponent = [] := by
      rw [hfraction, List.nil_append] at hrun
      exact n.exponent_form.resolve_right fun h => hrun (takeWhile_exponent h _)
    rw [hfraction, hexponent, hwhole, List.length_append]
    simp only [List.length_nil]
    omega

theorem digits_run {d : UInt8} (hd : isDigit d) (s : Text) :
    Digits ((d :: s).takeWhile isDigit) := by
  constructor
  · rw [List.takeWhile_cons_of_pos hd]
    simp
  · exact forall_takeWhile isDigit (d :: s)

theorem isFraction_take (s : Text) :
    s.take (fractionLength s) = [] ∨ IsFraction (s.take (fractionLength s)) := by
  fun_cases fractionLength s with
  | case1 d rest hd =>
    refine .inr ⟨d :: rest.takeWhile isDigit, ?_, by simp [take_length_takeWhile]⟩
    rw [← List.takeWhile_cons_of_pos hd]
    exact digits_run hd rest
  | case2 => simp
  | case3 => simp

theorem take_signLength (s : Text) :
    s.take (signLength s) = [] ∨ s.take (signLength s) = [0x2b] ∨
      s.take (signLength s) = [0x2d] := by
  fun_cases signLength s with
  | case1 b s hb =>
    rcases (by simpa using hb : b = 0x2b ∨ b = 0x2d) with rfl | rfl <;> simp
  | case2 => simp
  | case3 => simp

theorem isExponent_take (s : Text) :
    s.take (exponentLength s) = [] ∨ IsExponent (s.take (exponentLength s)) := by
  fun_cases exponentLength s with
  | case1 => simp
  | case2 b rest hb n hn =>
    refine .inr ⟨b, rest.take (signLength rest), (rest.drop (signLength rest)).takeWhile isDigit,
      by simpa using hb, take_signLength rest, ⟨?_, forall_takeWhile isDigit _⟩, ?_⟩
    · exact fun h => hn (by simp [n, h])
    · rw [List.take_succ_cons, Nat.add_comm, List.take_add, take_length_takeWhile]
  | case3 => simp
  | case4 => simp

def firstDecimal {d : UInt8} (hd : isDigit d) (s : Text) : DecimalLiteral where
  whole := (decimalParts (d :: s)).1
  fraction := (decimalParts (d :: s)).2.1
  exponent := (decimalParts (d :: s)).2.2
  whole_digits := digits_run hd s
  fraction_form := isFraction_take _
  exponent_form := isExponent_take _

theorem longest_firstDecimal {d : UInt8} (hd : isDigit d) (s : Text) :
    Longest DecimalLiteral.Spells (firstDecimal hd s).spelling (d :: s) where
  holds := ⟨_, rfl⟩
  begins := decimalParts_begin rfl
  longest := by
    rintro _ ⟨n, rfl⟩ hn
    exact length_spelling_le rfl n hn

theorem longest_takeWhile (p : UInt8 → Bool) (s : Text) :
    Longest (fun u => ∀ b ∈ u, p b) (s.takeWhile p) s where
  holds := forall_takeWhile p s
  begins := List.takeWhile_prefix p
  longest := by
    rintro v hv ⟨t, rfl⟩
    rw [List.takeWhile_append_of_pos hv, List.length_append]
    exact Nat.le_add_right _ _

theorem denotes_ofDecimalParts (n : DecimalLiteral) :
    n.Denotes (ofDecimalParts n.whole n.fraction n.exponent).1 where
  int h hvalue := by
    rw [ofDecimalParts, if_pos h, valueOf_eq_placeValue, if_pos (Nat.lt_succ_of_le hvalue)]
    exact ⟨_, rfl, Int64.toInt_ofNat_of_lt (Nat.lt_succ_of_le hvalue)⟩
  large h hvalue := by
    rw [ofDecimalParts, if_pos h, valueOf_eq_placeValue, if_neg (by omega)]
    rfl
  float h hvalue := by
    have hread : Binary64.ofDecimal? (placeValue 10 n.digits) n.scale ≠ none := by
      rw [Ne, Binary64.ofDecimal?_eq_none_iff]
      exact hvalue.not_ge
    obtain ⟨v, hv⟩ := Option.ne_none_iff_exists'.1 hread
    refine ⟨v, hv, ?_⟩
    rw [DecimalLiteral.digits, DecimalLiteral.scale, ← valueOf_eq_placeValue] at hv
    rw [ofDecimalParts, if_neg h]
    simp only [hv]
    rfl
  infinite h hvalue := by
    have hv : Binary64.ofDecimal? (placeValue 10 n.digits) n.scale = none :=
      (Binary64.ofDecimal?_eq_none_iff _ _).2 hvalue
    rw [DecimalLiteral.digits, DecimalLiteral.scale, ← valueOf_eq_placeValue] at hv
    rw [ofDecimalParts, if_neg h]
    simp only [hv]
    rfl

theorem denotes_scanPattern (base : Nat) (mark : UInt8) (s : Text) :
    PatternDenotes base mark (s.takeWhile isHexDigit) (scanPattern base mark s).1 := by
  have hpattern : IsPattern base (s.takeWhile isHexDigit) ↔
      s.takeWhile isHexDigit ≠ [] ∧ ((s.takeWhile isHexDigit).all (digitValue · < base)) = true ∧
        valueOf base (s.takeWhile isHexDigit) < 0x10000000000000000 := by
    rw [valueOf_eq_placeValue, List.all_eq_true]
    simp only [decide_eq_true_eq]
    exact ⟨fun h => ⟨h.nonempty, h.digits, h.fits⟩, fun h => ⟨h.1, h.2.1, h.2.2⟩⟩
  unfold scanPattern
  constructor
  · intro h
    rw [if_pos (hpattern.1 h)]
    refine ⟨_, rfl, ?_⟩
    rw [valueOf_eq_placeValue]
    exact UInt64.toNat_ofNat_of_lt h.fits
  · intro h
    rw [if_neg (mt hpattern.2 h)]

theorem scan_digit {d : UInt8} (hd : isDigit d) (rest : Text) :
    scan d rest = scanNumber d rest := by
  unfold scan
  split
  case h_10 => rw [if_pos hd]
  all_goals exact absurd hd (by decide)

theorem not_isBlank_digit {d : UInt8} (hd : isDigit d) : ¬isBlank d := by
  intro hb
  simp only [isBlank, Bool.or_eq_true, decide_eq_true_eq] at hb
  rcases hb with ((rfl | rfl) | rfl) | rfl <;> exact absurd hd (by decide)

theorem markedBase?_eq_some_iff {mark : UInt8} {base : Nat} :
    markedBase? mark = some base ↔ BaseMark mark base := by
  constructor
  · intro h
    unfold markedBase? at h
    split_ifs at h with hhex hbinary
    · cases h
      rcases (by simpa using hhex : mark = 0x78 ∨ mark = 0x58) with rfl | rfl
      · exact .smallHex
      · exact .largeHex
    · cases h
      rcases (by simpa using hbinary : mark = 0x62 ∨ mark = 0x42) with rfl | rfl
      · exact .smallBinary
      · exact .largeBinary
  · rintro (_ | _) <;> rfl

end Lexeme

/-- A digit begins the longest decimal literal there is at its place, or a pattern if a zero and the
mark of a base stand there; the token denotes it, and reading goes on right behind it. -/
theorem number_literals_exact (p : Place) {d : UInt8} (hd : isDigit d) (rest : Text) :
    ((¬∃ mark base s, d = 0x30 ∧ rest = mark :: s ∧ BaseMark mark base) →
      ∃ (n : DecimalLiteral) (l : Lexeme),
        Longest DecimalLiteral.Spells n.spelling (d :: rest) ∧ n.Denotes l ∧
          tokensFrom 0 p.line p.column (d :: rest) =
            ⟨l, p.location n.spelling.length⟩ ::
              tokensFrom 0 p.line (p.column + n.spelling.length)
                ((d :: rest).drop n.spelling.length)) ∧
      ∀ mark base s, d = 0x30 → rest = mark :: s → BaseMark mark base →
        ∃ (run : Text) (l : Lexeme),
          Longest (fun u => ∀ b ∈ u, isHexDigit b) run s ∧ PatternDenotes base mark run l ∧
            tokensFrom 0 p.line p.column (d :: rest) =
              ⟨l, p.location (run.length + 2)⟩ ::
                tokensFrom 0 p.line (p.column + (run.length + 2)) (s.drop run.length) := by
  have hread := tokensFrom_lexeme p (Lexeme.not_isBlank_digit hd) rest
  rw [Lexeme.scan_digit hd] at hread
  constructor
  · intro hplain
    have hmarked : ¬Lexeme.Marked d rest := by
      rintro ⟨rfl, mark, hmark, hbase⟩
      obtain ⟨base, hb⟩ := Option.ne_none_iff_exists'.1 hbase
      obtain ⟨s, rfl⟩ := List.head?_eq_some_iff.1 hmark
      exact hplain ⟨mark, base, s, rfl, rfl, Lexeme.markedBase?_eq_some_iff.1 hb⟩
    rw [Lexeme.scanNumber_plain hmarked, Lexeme.scanDecimal_eq rfl] at hread
    refine ⟨Lexeme.firstDecimal hd rest, _, Lexeme.longest_firstDecimal hd rest,
      Lexeme.denotes_ofDecimalParts _, ?_⟩
    have hpos : 0 < (Lexeme.firstDecimal hd rest).spelling.length := by
      have hdigits := List.length_pos_iff.2 (Lexeme.digits_run hd rest).1
      rw [DecimalLiteral.spelling, List.length_append, List.length_append]
      exact Nat.add_pos_left (Nat.add_pos_left hdigits _) _
    rw [Lexeme.length_ofDecimalParts] at hread
    rw [List.drop_cons hpos]
    exact hread
  · rintro mark base s rfl rfl hmark
    have hscan : Lexeme.scanNumber 0x30 (mark :: s) = Lexeme.scanPattern base mark s := by
      simp [Lexeme.scanNumber, Lexeme.markedBase?_eq_some_iff.2 hmark]
    rw [hscan, Lexeme.length_scanPattern] at hread
    exact ⟨_, _, Lexeme.longest_takeWhile isHexDigit s, Lexeme.denotes_scanPattern base mark s,
      hread⟩

/-- The least integer as a pattern, and a decimal literal that ends before the mark of an exponent
without digits. -/
theorem least_integer_and_open_exponent :
    (isDigit 0x30 ∧ ∃ v : Int64, v.toUInt64.toNat = 0x8000000000000000 ∧
      tokenize (utf8 "0X8000000000000000") =
        [⟨.int v (utf8 "0X8000000000000000"), ⟨1, 1, 18⟩⟩, ⟨.endOfInput, ⟨1, 19, 0⟩⟩]) ∧
      isDigit 0x31 ∧ ∃ (n : DecimalLiteral) (l : Lexeme),
        Longest DecimalLiteral.Spells n.spelling (utf8 "12.5e+") ∧ n.Denotes l ∧
          tokenize (utf8 "12.5e+") =
            ⟨l, ⟨1, 1, n.spelling.length⟩⟩ ::
              tokensFrom 0 1 (1 + n.spelling.length) ((utf8 "12.5e+").drop n.spelling.length) := by
  have hzero : isDigit 0x30 := by decide
  have hone : isDigit 0x31 := by decide
  constructor
  · obtain ⟨run, l, hrun, hl, hread⟩ := (number_literals_exact ⟨1, 1⟩ hzero
      (utf8 "X8000000000000000")).2 0x58 16 (utf8 "8000000000000000") rfl rfl .largeHex
    have hall : ∀ b ∈ utf8 "8000000000000000", isHexDigit b := by decide +kernel
    obtain rfl : run = utf8 "8000000000000000" :=
      hrun.begins.eq_of_length_le (hrun.longest _ hall (List.prefix_refl _))
    have hpattern : IsPattern 16 (utf8 "8000000000000000") :=
      ⟨by decide, by decide +kernel, by decide +kernel⟩
    obtain ⟨v, rfl, hv⟩ := hl.int hpattern
    exact ⟨hzero, v, hv, hread⟩
  · refine ⟨hone, (number_literals_exact ⟨1, 1⟩ hone (utf8 "2.5e+")).1 ?_⟩
    rintro ⟨mark, base, s, h, -⟩
    exact absurd h (by decide)

end OnePass
