import OnePass.Proofs.Expr.Texts

/-!
# Scanning one lexeme

A scanner takes at least one byte and never more than there are. What it takes is a lexeme in its
own right: read without what followed it, it is the same lexeme of the same length. Only the reason
of an illegal lexeme may be another one, since a literal that a line end broke off then ends with
the text.
-/

set_option autoImplicit false

namespace OnePass

open Text

def Lexeme.Alike : Lexeme → Lexeme → Prop
  | .illegal _, .illegal _ => True
  | l, l' => l = l'

namespace Lexeme

theorem Alike.refl (l : Lexeme) : l.Alike l := by
  cases l <;> trivial

section Runs

variable {p : UInt8 → Bool} {x y : Text}

theorem forall_takeWhile (p : UInt8 → Bool) (s : Text) : ∀ b ∈ s.takeWhile p, p b := by
  intro b hb
  exact List.all_eq_true.1 List.all_takeWhile b hb

theorem length_takeWhile_le (p : UInt8 → Bool) (s : Text) : (s.takeWhile p).length ≤ s.length :=
  (List.takeWhile_prefix p).length_le

theorem take_length_takeWhile (p : UInt8 → Bool) (s : Text) :
    s.take (s.takeWhile p).length = s.takeWhile p :=
  (List.prefix_iff_eq_take.1 (List.takeWhile_prefix p)).symm

theorem takeWhile_append_stop (hx : ∀ b ∈ x, p b) (hy : ∀ b ∈ y.head?, p b = false) :
    (x ++ y).takeWhile p = x := by
  rw [List.takeWhile_append_of_pos hx]
  cases y with
  | nil => simp
  | cons b y => simp [hy b rfl]

theorem takeWhile_of_length (h : ((x ++ y).takeWhile p).length = x.length) :
    (x ++ y).takeWhile p = x ∧ x.takeWhile p = x := by
  have hrun : (x ++ y).takeWhile p = x := by
    apply List.IsPrefix.eq_of_length _ h
    exact List.prefix_of_prefix_length_le (List.takeWhile_prefix p) (List.prefix_append x y)
      (Nat.le_of_eq h)
  have hall : ∀ b ∈ x, p b := hrun ▸ forall_takeWhile p (x ++ y)
  constructor
  · exact hrun
  · simpa using takeWhile_append_stop hall (y := []) (by simp)

end Runs

section Strings

variable {quote : UInt8} {x y : Text}

theorem bodyEnd_le (quote : UInt8) (s : Text) : (bodyEnd quote s).2 ≤ s.length := by
  fun_induction bodyEnd quote s with
  | case1 | case2 | case3 | case4 => simp
  | case5 b s hq hn ih => exact Nat.add_le_add_right ih 2
  | case6 b s hq hn hb ih => exact Nat.add_le_add_right ih 1

theorem bodyEnd_closed_lt (quote : UInt8) (s : Text) (h : (bodyEnd quote s).1 = .closed) :
    (bodyEnd quote s).2 < s.length := by
  fun_induction bodyEnd quote s <;> simp_all

theorem bodyEnd_quote (s : Text) : bodyEnd quote (quote :: s) = (.closed, 0) := by
  rw [bodyEnd.eq_def]
  simp

theorem bodyEnd_newline (h : newline ≠ quote) (s : Text) :
    bodyEnd quote (newline :: s) = (.brokenLine, 0) := by
  rw [bodyEnd.eq_def]
  simp [h]

theorem bodyEnd_other {b : UInt8} (hq : b ≠ quote) (hn : b ≠ newline) (hb : b ≠ 0x5c) (s : Text) :
    bodyEnd quote (b :: s) = ((bodyEnd quote s).1, (bodyEnd quote s).2 + 1) := by
  rw [bodyEnd.eq_def]
  simp [hq, hn, hb]

theorem bodyEnd_escape_ne_zero (hq : 0x5c ≠ quote) (s : Text) :
    (bodyEnd quote (0x5c :: s)).2 ≠ 0 := by
  have hn : (0x5c : UInt8) ≠ newline := by decide
  cases s <;> simp [bodyEnd, hq, hn]

/-- How a body ends within the first part of a text does not depend on the rest. -/
theorem bodyEnd_of_lt (h : (bodyEnd quote (x ++ y)).2 < x.length) :
    bodyEnd quote x = bodyEnd quote (x ++ y) := by
  fun_induction bodyEnd quote x with
  | case1 => simp at h
  | case2 x => simp [bodyEnd_quote]
  | case3 x hq => simp [bodyEnd_newline hq]
  | case4 hq hn =>
    exact absurd (Nat.lt_one_iff.1 h) (bodyEnd_escape_ne_zero hq y)
  | case5 b x hq hn ih => simp_all [bodyEnd]
  | case6 b x hq hn hb ih => simp_all [bodyEnd_other hq hn hb]

theorem bodyEnd_of_eq (h : (bodyEnd quote (x ++ y)).2 = x.length) :
    bodyEnd quote x = (.unfinished, x.length) := by
  fun_induction bodyEnd quote x with
  | case1 => rfl
  | case2 x => simp [bodyEnd_quote] at h
  | case3 x hq => simp [bodyEnd_newline hq] at h
  | case4 hq hn => rfl
  | case5 b x hq hn ih => simp_all [bodyEnd]
  | case6 b x hq hn hb ih => simp_all [bodyEnd_other hq hn hb]

def ofBody (body : Text) : Lexeme :=
  if (ofRunes (unescape (runes body))).contains 0 then
    .illegal (utf8 "NUL byte in string literal")
  else .string (ofRunes (unescape (runes body)))

theorem scanString_of_closed {s : Text} {n : Nat} (h : bodyEnd quote s = (.closed, n)) :
    scanString quote s = (ofBody (s.take n), n + 2) := by
  unfold scanString ofBody
  rw [h]
  dsimp only
  split <;> rfl

theorem scanString_of_open {s : Text} {e : BodyEnd} {n : Nat} (h : bodyEnd quote s = (e, n))
    (he : e ≠ .closed) : ∃ reason, scanString quote s = (.illegal reason, n + 1) := by
  unfold scanString
  rw [h]
  cases e with
  | closed => contradiction
  | brokenLine => exact ⟨_, rfl⟩
  | unfinished => exact ⟨_, rfl⟩

theorem length_scanString (quote : UInt8) (s : Text) :
    1 ≤ (scanString quote s).2 ∧ (scanString quote s).2 ≤ s.length + 1 := by
  have hle := bodyEnd_le quote s
  have hlt := bodyEnd_closed_lt quote s
  cases hb : bodyEnd quote s with
  | mk e n =>
    rw [hb] at hle hlt
    by_cases he : e = .closed
    · rw [he] at hb
      rw [scanString_of_closed hb]
      exact ⟨by simp, Nat.succ_le_succ (hlt he)⟩
    · obtain ⟨reason, hs⟩ := scanString_of_open hb he
      rw [hs]
      exact ⟨by simp, Nat.succ_le_succ hle⟩

theorem scanString_alone (h : (scanString quote (x ++ y)).2 = x.length + 1) :
    (scanString quote x).2 = x.length + 1 ∧
      (scanString quote (x ++ y)).1.Alike (scanString quote x).1 := by
  cases hb : bodyEnd quote (x ++ y) with
  | mk e n =>
    by_cases he : e = .closed
    · rw [he] at hb
      rw [scanString_of_closed hb] at h ⊢
      have hn : n + 1 = x.length := Nat.succ.inj h
      have hx : bodyEnd quote x = (.closed, n) := by
        rw [bodyEnd_of_lt, hb]
        rw [hb]
        exact Nat.lt_of_succ_le (Nat.le_of_eq hn)
      rw [scanString_of_closed hx, List.take_append_of_le_length (by omega)]
      exact ⟨h, .refl _⟩
    · -- The literal is broken off by a line end or by the end of the text, and `x` is all of it.
      obtain ⟨reason, hs⟩ := scanString_of_open hb he
      rw [hs] at h ⊢
      have hx : bodyEnd quote x = (.unfinished, x.length) := by
        apply bodyEnd_of_eq
        rw [hb]
        exact Nat.succ.inj h
      obtain ⟨reason', hs'⟩ := scanString_of_open hx (by decide)
      rw [hs']
      exact ⟨rfl, trivial⟩

end Strings

section Numbers

theorem length_scanPattern (base : Nat) (mark : UInt8) (s : Text) :
    (scanPattern base mark s).2 = (s.takeWhile isHexDigit).length + 2 := by
  unfold scanPattern
  dsimp only
  split <;> rfl

theorem scanPattern_alone {base : Nat} {mark : UInt8} {x y : Text}
    (h : (scanPattern base mark (x ++ y)).2 = x.length + 2) :
    scanPattern base mark x = scanPattern base mark (x ++ y) := by
  rw [length_scanPattern] at h
  have hrun := takeWhile_of_length (Nat.add_right_cancel h)
  unfold scanPattern
  rw [hrun.1, hrun.2]

def decimalParts (s : Text) : Text × Text × Text :=
  let rest := s.drop (s.takeWhile isDigit).length
  let fraction := rest.take (fractionLength rest)
  let rest := rest.drop fraction.length
  (s.takeWhile isDigit, fraction, rest.take (exponentLength rest))

def ofDecimalParts (whole fraction exponent : Text) : Lexeme × Nat :=
  let spelling := whole ++ fraction ++ exponent
  if fraction = [] ∧ exponent = [] then
    let value := valueOf 10 whole
    if value < 0x8000000000000000 then (.int (Int64.ofNat value) spelling, spelling.length)
    else (.illegal (utf8 "integer literal " ++ spelling ++ utf8 " out of range"), spelling.length)
  else
    let places := fraction.drop 1
    match Binary64.ofDecimal? (valueOf 10 (whole ++ places))
        (exponentValue exponent - places.length) with
    | some value => (.float value spelling, spelling.length)
    | none =>
      (.illegal (utf8 "float literal " ++ spelling ++ utf8 " out of range"), spelling.length)

theorem scanDecimal_eq {s whole fraction exponent : Text}
    (h : decimalParts s = (whole, fraction, exponent)) :
    scanDecimal s = ofDecimalParts whole fraction exponent := by
  cases h
  rfl

theorem length_ofDecimalParts (whole fraction exponent : Text) :
    (ofDecimalParts whole fraction exponent).2 = (whole ++ fraction ++ exponent).length := by
  unfold ofDecimalParts
  dsimp only
  split
  · split <;> rfl
  · split <;> rfl

def isMark (b : UInt8) : Bool := !isDigit b && b != 0x2e

theorem isDigit_of_isMark {b : UInt8} (h : isMark b) : isDigit b = false := by
  simp_all [isMark]

theorem fractionLength_le (s : Text) : fractionLength s ≤ s.length := by
  fun_cases fractionLength s with
  | case1 d rest hd => simpa using length_takeWhile_le isDigit rest
  | case2 => simp
  | case3 => simp

theorem signLength_le (s : Text) : signLength s ≤ s.length := by
  fun_cases signLength s <;> simp

theorem exponentLength_le (s : Text) : exponentLength s ≤ s.length := by
  fun_cases exponentLength s with
  | case1 => simp
  | case2 b rest hb n hn =>
    have hrun := length_takeWhile_le isDigit (rest.drop (signLength rest))
    have hsign := signLength_le rest
    rw [List.length_drop] at hrun
    simp only [List.length_cons]
    omega
  | case3 => simp
  | case4 => simp

theorem head_exponent (s : Text) : ∀ b ∈ (s.take (exponentLength s)).head?, isMark b := by
  fun_cases exponentLength s with
  | case1 => simp
  | case2 b rest hb n hn =>
    rw [List.take_succ_cons]
    rcases (by simpa using hb : b = 0x65 ∨ b = 0x45) with rfl | rfl <;> simp <;> decide
  | case3 => simp
  | case4 => simp

theorem fractionLength_of_mark {s : Text} (h : ∀ b ∈ s.head?, isMark b) : fractionLength s = 0 := by
  fun_cases fractionLength s with
  | case1 d rest hd => simp [isMark] at h
  | case2 => rfl
  | case3 => rfl

theorem fractionLength_append (s : Text) {e : Text} (he : ∀ b ∈ e.head?, isMark b) :
    fractionLength (s.take (fractionLength s) ++ e) = fractionLength s := by
  fun_cases fractionLength s with
  | case1 d rest hd =>
    have hstop : (rest.takeWhile isDigit ++ e).takeWhile isDigit = rest.takeWhile isDigit := by
      apply takeWhile_append_stop (forall_takeWhile isDigit rest)
      intro b hb
      exact isDigit_of_isMark (he b hb)
    simp [fractionLength, hd, take_length_takeWhile, hstop]
  | case2 d rest hd => simpa using fractionLength_of_mark he
  | case3 => simpa using fractionLength_of_mark he

theorem signLength_take {s : Text} {n : Nat} (h : 0 < n) :
    signLength (s.take n) = signLength s := by
  cases s with
  | nil => simp
  | cons b s => simp [List.take_cons h, signLength]

theorem exponentLength_take (s : Text) :
    exponentLength (s.take (exponentLength s)) = exponentLength s := by
  fun_cases exponentLength s with
  | case1 => rfl
  | case2 b rest hb n hn =>
    have hsign : signLength (rest.take (n + signLength rest)) = signLength rest :=
      signLength_take (by omega)
    have hdigits : ((rest.take (n + signLength rest)).drop (signLength rest)).takeWhile isDigit =
        (rest.drop (signLength rest)).takeWhile isDigit := by
      rw [List.drop_take, Nat.add_sub_cancel, take_length_takeWhile]
      simpa using takeWhile_append_stop (forall_takeWhile isDigit _) (y := []) (by simp)
    rw [List.take_succ_cons]
    simp only [exponentLength, hb, hsign, hdigits, if_true]
    exact if_neg hn
  | case3 => rfl
  | case4 => rfl

theorem head_fraction (s : Text) :
    ∀ b ∈ (s.take (fractionLength s)).head?, isDigit b = false := by
  fun_cases fractionLength s with
  | case1 d rest hd => simp; decide
  | case2 => simp
  | case3 => simp

section Decimals

variable {s whole fraction exponent : Text}

theorem decimalParts_begin (h : decimalParts s = (whole, fraction, exponent)) :
    whole ++ fraction ++ exponent <+: s := by
  cases h
  have hs : s.takeWhile isDigit ++ s.drop (s.takeWhile isDigit).length = s :=
    List.prefix_iff_eq_append.1 (List.takeWhile_prefix isDigit)
  generalize s.drop (s.takeWhile isDigit).length = r at hs
  have hr : r.take (fractionLength r) ++ r.drop (r.take (fractionLength r)).length = r :=
    List.prefix_iff_eq_append.1 (List.take_prefix _ r)
  generalize r.drop (r.take (fractionLength r)).length = q at hr
  exists q.drop (exponentLength q)
  rw [List.append_assoc, List.append_assoc, List.take_append_drop, hr, hs]

theorem decimalParts_spelling (h : decimalParts s = (whole, fraction, exponent)) :
    decimalParts (whole ++ fraction ++ exponent) = (whole, fraction, exponent) := by
  cases h
  have hwhole := forall_takeWhile isDigit s
  generalize s.takeWhile isDigit = w at hwhole ⊢
  generalize s.drop w.length = r
  generalize r.drop (r.take (fractionLength r)).length = q
  have hexp := head_exponent q
  have hlen := exponentLength_take q
  have hfrac := fractionLength_append r hexp
  have hhead : ∀ b ∈ (r.take (fractionLength r) ++ q.take (exponentLength q)).head?,
      isDigit b = false := by
    intro b hb
    rw [List.head?_append, Option.mem_def, Option.or_eq_some_iff] at hb
    rcases hb with hb | ⟨-, hb⟩
    · exact head_fraction r b hb
    · exact isDigit_of_isMark (hexp b hb)
  have hrun : (w ++ r.take (fractionLength r) ++ q.take (exponentLength q)).takeWhile isDigit =
      w := by
    rw [List.append_assoc]
    exact takeWhile_append_stop hwhole hhead
  have hdrop : (w ++ r.take (fractionLength r) ++ q.take (exponentLength q)).drop w.length =
      r.take (fractionLength r) ++ q.take (exponentLength q) := by
    rw [List.append_assoc, List.drop_left]
  have hlength : (r.take (fractionLength r)).length = fractionLength r :=
    List.length_take_of_le (fractionLength_le r)
  have htake : (r.take (fractionLength r) ++ q.take (exponentLength q)).take (fractionLength r) =
      r.take (fractionLength r) := List.take_left' hlength
  unfold decimalParts
  simp only [hrun, hdrop, hfrac, htake, List.drop_left, hlen, List.take_take, Nat.min_self]

end Decimals

theorem length_scanDecimal_le (s : Text) : (scanDecimal s).2 ≤ s.length := by
  rw [scanDecimal_eq rfl, length_ofDecimalParts]
  exact (decimalParts_begin rfl).length_le

theorem scanDecimal_alone {x y : Text} (h : (scanDecimal (x ++ y)).2 = x.length) :
    scanDecimal x = scanDecimal (x ++ y) := by
  cases hp : decimalParts (x ++ y) with
  | mk whole parts =>
    obtain ⟨fraction, exponent⟩ := parts
    have hx : whole ++ fraction ++ exponent = x := by
      rw [scanDecimal_eq hp, length_ofDecimalParts] at h
      apply List.IsPrefix.eq_of_length _ h
      exact List.prefix_of_prefix_length_le (decimalParts_begin hp) (List.prefix_append x y)
        (Nat.le_of_eq h)
    have hparts := decimalParts_spelling hp
    rw [hx] at hparts
    rw [scanDecimal_eq hp, scanDecimal_eq hparts]

theorem length_scanDecimal_pos {d : UInt8} (hd : isDigit d) (s : Text) :
    1 ≤ (scanDecimal (d :: s)).2 := by
  rw [scanDecimal_eq rfl, length_ofDecimalParts, List.takeWhile_cons_of_pos hd]
  simp

def Marked (d : UInt8) (s : Text) : Prop :=
  d = 0x30 ∧ ∃ mark ∈ s.head?, markedBase? mark ≠ none

theorem scanNumber_marked {d mark : UInt8} {s : Text} (h : Marked d (mark :: s)) :
    ∃ base, ∀ s, scanNumber d (mark :: s) = scanPattern base mark s := by
  obtain ⟨rfl, m, hm, hbase⟩ := h
  cases hm
  obtain ⟨base, hb⟩ := Option.ne_none_iff_exists'.1 hbase
  exists base
  intro s
  simp [scanNumber, hb]

theorem scanNumber_plain {d : UInt8} {s : Text} (h : ¬Marked d s) :
    scanNumber d s = scanDecimal (d :: s) := by
  fun_cases scanNumber d s with
  | case1 mark tail base hb => exact absurd ⟨rfl, mark, rfl, by simp [hb]⟩ h
  | case2 => rfl
  | case3 => rfl

theorem length_scanNumber {d : UInt8} (hd : isDigit d) (s : Text) :
    1 ≤ (scanNumber d s).2 ∧ (scanNumber d s).2 ≤ s.length + 1 := by
  by_cases h : Marked d s
  · cases s with
    | nil => simp [Marked] at h
    | cons mark s =>
      obtain ⟨base, hscan⟩ := scanNumber_marked h
      rw [hscan, length_scanPattern]
      constructor
      · omega
      · exact Nat.add_le_add_right (length_takeWhile_le isHexDigit s) 2
  · rw [scanNumber_plain h]
    constructor
    · exact length_scanDecimal_pos hd s
    · exact length_scanDecimal_le (d :: s)

theorem scanNumber_alone {d : UInt8} {x y : Text} (h : (scanNumber d (x ++ y)).2 = x.length + 1) :
    scanNumber d x = scanNumber d (x ++ y) := by
  cases x with
  | nil =>
    by_cases hm : Marked d ([] ++ y)
    · cases y with
      | nil => rfl
      | cons mark y =>
        obtain ⟨base, hscan⟩ := scanNumber_marked hm
        rw [List.nil_append, hscan, length_scanPattern] at h
        simp at h
    · rw [scanNumber_plain hm] at h ⊢
      rw [scanNumber_plain (by simp [Marked])]
      exact scanDecimal_alone (x := [d]) h
  | cons mark x =>
    by_cases hm : Marked d (mark :: x)
    · obtain ⟨base, hscan⟩ := scanNumber_marked hm
      rw [List.cons_append, hscan] at h ⊢
      rw [hscan]
      exact scanPattern_alone h
    · rw [scanNumber_plain (s := mark :: x ++ y) hm] at h ⊢
      rw [scanNumber_plain hm]
      exact scanDecimal_alone (x := d :: mark :: x) h

end Numbers

theorem length_scan (b : UInt8) (rest : Text) :
    1 ≤ (scan b rest).2 ∧ (scan b rest).2 ≤ rest.length + 1 := by
  unfold scan
  split
  case h_3 =>
    split
    · cases rest <;> simp_all
    · simp
  case h_8 => exact length_scanString ..
  case h_9 => exact length_scanString ..
  case h_10 =>
    split
    · exact length_scanNumber ‹_› rest
    · split
      · simpa using length_takeWhile_le continuesWord rest
      · simp
  all_goals simp

/-- A lexeme that is read without what follows it. -/
theorem scan_alone {b : UInt8} {x y : Text} (h : (scan b (x ++ y)).2 = x.length + 1) :
    (scan b x).2 = x.length + 1 ∧ (scan b (x ++ y)).1.Alike (scan b x).1 := by
  unfold scan at h ⊢
  split at h
  case h_3 =>
    cases x with
    | nil =>
      split at h
      · cases h
      · rename_i hstar
        simp only [List.nil_append] at hstar ⊢
        rw [if_neg hstar]
        exact ⟨rfl, .refl _⟩
    | cons c x =>
      split at h
      · rename_i hstar
        cases x with
        | nil =>
          cases Option.some.inj hstar
          exact ⟨rfl, .refl _⟩
        | cons d x => simp at h
      · simp at h
  case h_8 => exact scanString_alone h
  case h_9 => exact scanString_alone h
  case h_10 =>
    by_cases hd : isDigit b
    · simp only [hd, if_true] at h ⊢
      rw [scanNumber_alone h]
      exact ⟨h, .refl _⟩
    · by_cases hw : startsWord b
      · simp only [hd, hw, if_true, Bool.false_eq_true, if_false] at h ⊢
        obtain ⟨hrun, hself⟩ := takeWhile_of_length (Nat.succ.inj h)
        rw [hrun, hself]
        exact ⟨rfl, .refl _⟩
      · simp only [hd, hw, Bool.false_eq_true, if_false] at h ⊢
        exact ⟨h, .refl _⟩
  all_goals
    simp at h
    subst h
    exact ⟨rfl, .refl _⟩

def EscapesLineEnd (s : Text) : Prop := ∃ u v, s = u ++ 0x5c :: newline :: v

theorem EscapesLineEnd.append_left (u : Text) {s : Text} (h : EscapesLineEnd s) :
    EscapesLineEnd (u ++ s) := by
  obtain ⟨v, w, rfl⟩ := h
  exact ⟨u ++ v, w, by simp⟩

/-- In the body of a literal, a line end can only be escaped. -/
theorem escapes_of_mem_body (quote : UInt8) (s : Text)
    (h : newline ∈ s.take (bodyEnd quote s).2) : EscapesLineEnd (s.take (bodyEnd quote s).2) := by
  fun_induction bodyEnd quote s with
  | case1 => simp at h
  | case2 s => simp at h
  | case3 s hq => simp at h
  | case4 hq hn => simp [newline] at h
  | case5 b s hq hn ih =>
    by_cases hb : b = newline
    · exact ⟨[], s.take (bodyEnd quote s).2, by simp [hb]⟩
    · have hs : newline ∈ s.take (bodyEnd quote s).2 := by
        simpa [hb, Ne.symm hn, Ne.symm hb] using h
      exact (ih hs).append_left [0x5c, b]
  | case6 b s hq hn hb ih =>
    have hs : newline ∈ s.take (bodyEnd quote s).2 := by simpa [Ne.symm hn] using h
    exact (ih hs).append_left [b]

theorem bodyEnd_closed_quote (quote : UInt8) (s : Text) (h : (bodyEnd quote s).1 = .closed) :
    s.take ((bodyEnd quote s).2 + 1) = s.take (bodyEnd quote s).2 ++ [quote] := by
  fun_induction bodyEnd quote s <;> simp_all

theorem escapes_of_mem_string {quote : UInt8} (hq : quote ≠ newline) {s : Text}
    (h : newline ∈ s.take ((scanString quote s).2 - 1)) :
    EscapesLineEnd (s.take ((scanString quote s).2 - 1)) := by
  have hbody := escapes_of_mem_body quote s
  have hclosed := bodyEnd_closed_quote quote s
  cases hb : bodyEnd quote s with
  | mk e n =>
    rw [hb] at hbody hclosed
    by_cases he : e = .closed
    · rw [he] at hb
      rw [scanString_of_closed hb] at h ⊢
      simp only [Nat.add_one_sub_one, hclosed he] at h ⊢
      have hmem : newline ∈ s.take n := by simpa [hq.symm] using h
      obtain ⟨u, v, hs⟩ := hbody hmem
      exact ⟨u, v ++ [quote], by simp [hs]⟩
    · obtain ⟨reason, hs⟩ := scanString_of_open hb he
      rw [hs] at h ⊢
      exact hbody h

def isNumeric (b : UInt8) : Bool :=
  isHexDigit b || b = 0x2b || b = 0x2d || b = 0x2e || b = 0x78 || b = 0x58

theorem isNumeric_of_isDigit {b : UInt8} (h : isDigit b) : isNumeric b := by
  simp [isNumeric, isHexDigit, h]

theorem isNumeric_run (s : Text) : ∀ b ∈ s.takeWhile isDigit, isNumeric b := by
  intro b hb
  exact isNumeric_of_isDigit (forall_takeWhile isDigit s b hb)

theorem isNumeric_fraction (s : Text) : ∀ b ∈ s.take (fractionLength s), isNumeric b := by
  fun_cases fractionLength s with
  | case1 d rest hd =>
    simp only [List.take_succ_cons, take_length_takeWhile, List.forall_mem_cons]
    exact ⟨rfl, isNumeric_of_isDigit hd, isNumeric_run rest⟩
  | case2 => simp
  | case3 => simp

theorem isNumeric_sign (s : Text) : ∀ b ∈ s.take (signLength s), isNumeric b := by
  fun_cases signLength s with
  | case1 b s hb =>
    rcases (by simpa using hb : b = 0x2b ∨ b = 0x2d) with rfl | rfl <;> simp <;> rfl
  | case2 => simp
  | case3 => simp

theorem isNumeric_exponent (s : Text) : ∀ b ∈ s.take (exponentLength s), isNumeric b := by
  fun_cases exponentLength s with
  | case1 => simp
  | case2 b rest hb n hn =>
    rw [List.take_succ_cons, Nat.add_comm, List.take_add, take_length_takeWhile]
    simp only [List.forall_mem_cons, List.forall_mem_append]
    refine ⟨?_, isNumeric_sign rest, isNumeric_run _⟩
    rcases (by simpa using hb : b = 0x65 ∨ b = 0x45) with rfl | rfl <;> rfl
  | case3 => simp
  | case4 => simp

theorem isNumeric_of_markedBase? {mark : UInt8} (h : markedBase? mark ≠ none) :
    isNumeric mark := by
  have hmark : mark = 0x78 ∨ mark = 0x58 ∨ mark = 0x62 ∨ mark = 0x42 := by
    unfold markedBase? at h
    grind
  rcases hmark with rfl | rfl | rfl | rfl <;> rfl

theorem isNumeric_scanDecimal (s : Text) : ∀ b ∈ s.take (scanDecimal s).2, isNumeric b := by
  rw [scanDecimal_eq rfl, length_ofDecimalParts,
    ← List.prefix_iff_eq_take.1 (decimalParts_begin rfl)]
  simp only [List.forall_mem_append]
  exact ⟨⟨isNumeric_run s, isNumeric_fraction _⟩, isNumeric_exponent _⟩

theorem isNumeric_scanNumber (d : UInt8) (s : Text) :
    ∀ b ∈ (d :: s).take (scanNumber d s).2, isNumeric b := by
  by_cases h : Marked d s
  · cases s with
    | nil => simp [Marked] at h
    | cons mark s =>
      obtain ⟨base, hscan⟩ := scanNumber_marked h
      obtain ⟨rfl, m, hm, hbase⟩ := h
      cases hm
      rw [hscan, length_scanPattern, List.take_succ_cons, List.take_succ_cons,
        take_length_takeWhile]
      simp only [List.forall_mem_cons]
      refine ⟨rfl, isNumeric_of_markedBase? hbase, ?_⟩
      intro b hb
      simp [isNumeric, forall_takeWhile isHexDigit s b hb]
  · rw [scanNumber_plain h]
    exact isNumeric_scanDecimal (d :: s)

/-- A lexeme with a line end in it is a literal that escapes it. -/
theorem escapes_of_mem_scan {b : UInt8} {s : Text} (h : newline ∈ s.take ((scan b s).2 - 1)) :
    (b = 0x22 ∨ b = 0x27) ∧ EscapesLineEnd (s.take ((scan b s).2 - 1)) := by
  unfold scan at h ⊢
  split at h
  case h_3 =>
    split at h
    · cases s <;> simp_all [newline]
    · simp at h
  case h_8 => exact ⟨.inl rfl, escapes_of_mem_string (by decide) h⟩
  case h_9 => exact ⟨.inr rfl, escapes_of_mem_string (by decide) h⟩
  case h_10 =>
    by_cases hd : isDigit b
    · simp only [hd, if_true] at h
      have hmem : newline ∈ (b :: s).take (scanNumber b s).2 := by
        rw [List.take_cons (length_scanNumber hd s).1]
        exact List.mem_cons_of_mem b h
      exact absurd (isNumeric_scanNumber b s newline hmem) (by decide)
    · by_cases hw : startsWord b
      · simp only [hd, hw, if_true, Bool.false_eq_true, if_false, List.length_cons,
          Nat.add_one_sub_one, take_length_takeWhile] at h
        have hword := forall_takeWhile continuesWord s newline h
        exact absurd hword (by decide)
      · simp [hd, hw] at h
  all_goals simp at h

end Lexeme

end OnePass
