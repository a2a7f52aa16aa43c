import OnePass.Text.Rune

/-!
# Code points and the bytes that write them

A sequence of bytes that is read as a code point is the one that writes it, whatever follows. So a
valid text is made of such sequences, and writing its code points gives the text back.
-/

set_option autoImplicit false

namespace OnePass.Text

theorem toNat_ofNat {n : Nat} (h : n.isValidChar) : (Char.ofNat n).val.toNat = n := by
  rw [Char.ofNat, dif_pos h]
  rfl

theorem byte_ofNat {n : Nat} {a : UInt8} (h : n = a.toNat) : UInt8.ofNat n = a := by
  rw [h, UInt8.ofNat_toNat]

theorem encodeChar_one {a : UInt8} (ha : a.toNat < 0x80) :
    encodeChar (Char.ofNat a.toNat) = [a] := by
  rw [encodeChar, String.utf8EncodeChar, toNat_ofNat (.inl (by omega))]
  simp only [if_pos (show a.toNat ≤ 127 by omega), UInt8.ofNat_toNat]

theorem encodeChar_two {a b : UInt8} (ha : 0xc2 ≤ a.toNat ∧ a.toNat ≤ 0xdf)
    (hb : 0x80 ≤ b.toNat ∧ b.toNat ≤ 0xbf) :
    encodeChar (Char.ofNat (a.toNat % 32 * 64 + low6 b)) = [a, b] := by
  unfold low6
  generalize hn : a.toNat % 32 * 64 + b.toNat % 64 = n
  rw [encodeChar, String.utf8EncodeChar, toNat_ofNat (.inl (by omega))]
  simp only [if_neg (show ¬n ≤ 127 by omega), if_pos (show n ≤ 2047 by omega)]
  rw [byte_ofNat (a := a) (by omega), byte_ofNat (a := b) (by omega)]

theorem encodeChar_three {a b c : UInt8} (ha : 0xe0 ≤ a.toNat ∧ a.toNat ≤ 0xef)
    (hb : 0x80 ≤ b.toNat ∧ b.toNat ≤ 0xbf) (hlow : a.toNat = 0xe0 → 0xa0 ≤ b.toNat)
    (hhigh : a.toNat = 0xed → b.toNat ≤ 0x9f) (hc : 0x80 ≤ c.toNat ∧ c.toNat ≤ 0xbf) :
    encodeChar (Char.ofNat ((a.toNat % 16 * 64 + low6 b) * 64 + low6 c)) = [a, b, c] := by
  unfold low6
  generalize hn : (a.toNat % 16 * 64 + b.toNat % 64) * 64 + c.toNat % 64 = n
  have hvalid : n.isValidChar := by
    unfold Nat.isValidChar
    omega
  rw [encodeChar, String.utf8EncodeChar, toNat_ofNat hvalid]
  simp only [if_neg (show ¬n ≤ 127 by omega), if_neg (show ¬n ≤ 2047 by omega),
    if_pos (show n ≤ 65535 by omega)]
  rw [byte_ofNat (a := a) (by omega), byte_ofNat (a := b) (by omega),
    byte_ofNat (a := c) (by omega)]

theorem encodeChar_four {a b c d : UInt8} (ha : 0xf0 ≤ a.toNat ∧ a.toNat ≤ 0xf4)
    (hb : 0x80 ≤ b.toNat ∧ b.toNat ≤ 0xbf) (hlow : a.toNat = 0xf0 → 0x90 ≤ b.toNat)
    (hhigh : a.toNat = 0xf4 → b.toNat ≤ 0x8f) (hc : 0x80 ≤ c.toNat ∧ c.toNat ≤ 0xbf)
    (hd : 0x80 ≤ d.toNat ∧ d.toNat ≤ 0xbf) :
    encodeChar (Char.ofNat (((a.toNat % 8 * 64 + low6 b) * 64 + low6 c) * 64 + low6 d)) =
      [a, b, c, d] := by
  unfold low6
  generalize hn : ((a.toNat % 8 * 64 + b.toNat % 64) * 64 + c.toNat % 64) * 64 + d.toNat % 64 = n
  have hvalid : n.isValidChar := by
    unfold Nat.isValidChar
    omega
  rw [encodeChar, String.utf8EncodeChar, toNat_ofNat hvalid]
  simp only [if_neg (show ¬n ≤ 127 by omega), if_neg (show ¬n ≤ 2047 by omega),
    if_neg (show ¬n ≤ 65535 by omega)]
  rw [byte_ofNat (a := a) (by omega), byte_ofNat (a := b) (by omega),
    byte_ofNat (a := c) (by omega), byte_ofNat (a := d) (by omega)]

structure Spells (u : Text) (c : Char) : Prop where
  bytes : encodeChar c = u
  reads : ∀ t, pieces (u ++ t) = .rune c :: pieces t
  plain : (∃ a, u = [a] ∧ a < 0x80 ∧ c = Char.ofNat a.toNat) ∨ ∀ b ∈ u, 0x80 ≤ b

theorem piecesAfter_eq {skip : Nat} {s : Text} : piecesAfter skip s = pieces (s.drop skip) := by
  induction skip generalizing s with
  | zero => rfl
  | succ skip ih =>
    cases s with
    | nil => rfl
    | cons b s => exact ih

theorem pieces_cons (a : UInt8) (rest : Text) :
    pieces (a :: rest) = (firstPiece a rest).1 :: pieces (rest.drop (firstPiece a rest).2) := by
  rw [pieces, piecesAfter, piecesAfter_eq]

theorem spells_ascii {a : UInt8} (ha : a < 0x80) : Spells [a] (Char.ofNat a.toNat) where
  bytes := encodeChar_one ha
  reads t := by
    rw [List.singleton_append, pieces_cons, firstPiece.eq_def, if_pos ha]
    rfl
  plain := .inl ⟨a, rfl, ha, rfl⟩

theorem Spells.of_bytes {a : UInt8} {cs : Text} {c : Char} (bytes : encodeChar c = a :: cs)
    (first : ∀ t, firstPiece a (cs ++ t) = (.rune c, cs.length)) (high : ∀ b ∈ a :: cs, 0x80 ≤ b) :
    Spells (a :: cs) c where
  bytes := bytes
  reads t := by rw [List.cons_append, pieces_cons, first, List.drop_left]
  plain := .inr high

theorem between_iff {low high b : UInt8} :
    (low ≤ b && b ≤ high) = true ↔ low.toNat ≤ b.toNat ∧ b.toNat ≤ high.toNat := by
  simp [UInt8.le_iff_toNat_le]

theorem secondFits_bounds {a b : UInt8} (h : secondFits a b = true) :
    (0x80 ≤ b.toNat ∧ b.toNat ≤ 0xbf) ∧ (a.toNat = 0xe0 → 0xa0 ≤ b.toNat) ∧
      (a.toNat = 0xed → b.toNat ≤ 0x9f) ∧ (a.toNat = 0xf0 → 0x90 ≤ b.toNat) ∧
      (a.toNat = 0xf4 → b.toNat ≤ 0x8f) := by
  have hnat (c : UInt8) : a = c ↔ a.toNat = c.toNat := UInt8.toNat_inj.symm
  simp only [secondFits, secondRange, hnat, Bool.and_eq_true, decide_eq_true_eq,
    UInt8.le_iff_toNat_le, apply_ite Prod.fst, apply_ite Prod.snd, apply_ite UInt8.toNat,
    UInt8.reduceToNat] at h
  grind

theorem high_of_isContinuation {b : UInt8} (h : isContinuation b = true) : 0x80 ≤ b :=
  UInt8.le_iff_toNat_le.2 (between_iff.1 h).1

section Several

variable {a b d e : UInt8} (h1 : ¬a < 0x80)
include h1

theorem spells_two (h2 : (0xc2 ≤ a && a ≤ 0xdf) = true) (hb : isContinuation b = true) :
    Spells [a, b] (Char.ofNat (a.toNat % 32 * 64 + low6 b)) := by
  apply Spells.of_bytes (encodeChar_two (between_iff.1 h2) (between_iff.1 hb))
  · intro t
    simp [firstPiece, h1, h2, hb]
  · simp only [List.forall_mem_cons]
    exact ⟨UInt8.not_lt.1 h1, high_of_isContinuation hb, by simp⟩

theorem spells_three (h2 : ¬(0xc2 ≤ a && a ≤ 0xdf) = true) (h3 : (0xe0 ≤ a && a ≤ 0xef) = true)
    (h : (secondFits a b && isContinuation d) = true) :
    Spells [a, b, d] (Char.ofNat ((a.toNat % 16 * 64 + low6 b) * 64 + low6 d)) := by
  obtain ⟨hb, hd⟩ := Bool.and_eq_true_iff.1 h
  obtain ⟨hrange, hlow, hhigh, -⟩ := secondFits_bounds hb
  apply Spells.of_bytes
    (encodeChar_three (between_iff.1 h3) hrange hlow hhigh (between_iff.1 hd))
  · intro t
    simp [firstPiece, h1, h2, h3, hb, hd]
  · simp only [List.forall_mem_cons]
    exact ⟨UInt8.not_lt.1 h1, UInt8.le_iff_toNat_le.2 hrange.1, high_of_isContinuation hd, by simp⟩

theorem spells_four (h2 : ¬(0xc2 ≤ a && a ≤ 0xdf) = true) (h3 : ¬(0xe0 ≤ a && a ≤ 0xef) = true)
    (h4 : (0xf0 ≤ a && a ≤ 0xf4) = true)
    (h : (secondFits a b && isContinuation d && isContinuation e) = true) :
    Spells [a, b, d, e]
      (Char.ofNat (((a.toNat % 8 * 64 + low6 b) * 64 + low6 d) * 64 + low6 e)) := by
  obtain ⟨hbd, he⟩ := Bool.and_eq_true_iff.1 h
  obtain ⟨hb, hd⟩ := Bool.and_eq_true_iff.1 hbd
  obtain ⟨hrange, -, -, hlow, hhigh⟩ := secondFits_bounds hb
  apply Spells.of_bytes (encodeChar_four (between_iff.1 h4) hrange hlow hhigh (between_iff.1 hd)
    (between_iff.1 he))
  · intro t
    simp [firstPiece, h1, h2, h3, h4, hb, hd, he]
  · simp only [List.forall_mem_cons]
    exact ⟨UInt8.not_lt.1 h1, UInt8.le_iff_toNat_le.2 hrange.1, high_of_isContinuation hd,
      high_of_isContinuation he, by simp⟩

end Several

/-- What is read as a code point is the sequence that writes it. -/
theorem exists_spells {a : UInt8} {rest : Text} {c : Char} {n : Nat}
    (h : firstPiece a rest = (.rune c, n)) :
    ∃ u, a :: rest = u ++ rest.drop n ∧ Spells u c := by
  by_cases h1 : a < 0x80
  · rw [firstPiece.eq_def, if_pos h1] at h
    cases h
    exact ⟨[a], rfl, spells_ascii h1⟩
  by_cases h2 : (0xc2 ≤ a && a ≤ 0xdf) = true
  · rw [firstPiece.eq_def, if_neg h1, if_pos h2] at h
    rcases rest with _ | ⟨b, rest⟩
    · cases h
    · by_cases hb : isContinuation b = true
      · simp only [hb, if_true] at h
        cases h
        exact ⟨[a, b], rfl, spells_two h1 h2 hb⟩
      · simp [hb] at h
  by_cases h3 : (0xe0 ≤ a && a ≤ 0xef) = true
  · rw [firstPiece.eq_def, if_neg h1, if_neg h2, if_pos h3] at h
    rcases rest with _ | ⟨b, _ | ⟨d, rest⟩⟩
    · cases h
    · cases h
    · by_cases hbd : (secondFits a b && isContinuation d) = true
      · simp only [hbd, if_true] at h
        cases h
        exact ⟨[a, b, d], rfl, spells_three h1 h2 h3 hbd⟩
      · simp [hbd] at h
  by_cases h4 : (0xf0 ≤ a && a ≤ 0xf4) = true
  · rw [firstPiece.eq_def, if_neg h1, if_neg h2, if_neg h3, if_pos h4] at h
    rcases rest with _ | ⟨b, _ | ⟨d, _ | ⟨e, rest⟩⟩⟩
    · cases h
    · cases h
    · cases h
    · by_cases hbde : (secondFits a b && isContinuation d && isContinuation e) = true
      · simp only [hbde, if_true] at h
        cases h
        exact ⟨[a, b, d, e], rfl, spells_four h1 h2 h3 h4 hbde⟩
      · simp [hbde] at h
  · rw [firstPiece.eq_def, if_neg h1, if_neg h2, if_neg h3, if_neg h4] at h
    cases h

theorem Spells.runes {u : Text} {c : Char} (h : Spells u c) (t : Text) :
    runes (u ++ t) = c :: runes t := by
  simp [Text.runes, h.reads, Piece.char]

theorem runes_ascii {a : UInt8} (ha : a < 0x80) (t : Text) :
    runes (a :: t) = Char.ofNat a.toNat :: runes t :=
  (spells_ascii ha).runes t

/-- A valid text is made of sequences that write a code point each. -/
theorem valid_induction {P : Text → Prop} (nil : P [])
    (cons : ∀ u c t, Spells u c → isValidUtf8 t → P t → P (u ++ t)) {s : Text}
    (h : isValidUtf8 s) : P s := by
  induction hn : s.length using Nat.strongRecOn generalizing s with
  | ind k ih =>
    subst hn
    cases s with
    | nil => exact nil
    | cons a rest =>
      rw [isValidUtf8, pieces_cons, List.all_cons, Bool.and_eq_true] at h
      obtain ⟨hfirst, hrest⟩ := h
      cases hp : firstPiece a rest with
      | mk piece n =>
        rw [hp] at hfirst hrest
        cases piece with
        | stray b => cases hfirst
        | rune c =>
          obtain ⟨u, hu, hspells⟩ := exists_spells hp
          have hshort : (rest.drop n).length < (a :: rest).length := by
            simp only [List.length_drop, List.length_cons]
            omega
          rw [hu]
          exact cons u c _ hspells hrest (ih _ hshort hrest rfl)

theorem ofRunes_runes {s : Text} (h : isValidUtf8 s) : ofRunes (runes s) = s := by
  refine valid_induction (P := fun s => ofRunes (runes s) = s) ?_ ?_ h
  · rfl
  · intro u c t hu _ ih
    rw [hu.runes, ofRunes, List.flatMap_cons, hu.bytes, ← ofRunes, ih]

end OnePass.Text
