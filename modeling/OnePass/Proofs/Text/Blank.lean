import OnePass.Proofs.Text.Rune
import OnePass.Text.Rune

/-!
# The first byte that is not blank

A line end is not part of a longer code point, so it divides the pieces of a text. A text that is
not blank therefore begins with the same byte, its blanks aside, when more lines follow.
-/

set_option autoImplicit false

namespace OnePass.Text

theorem secondFits_newline (a : UInt8) : secondFits a newline = false := by
  rw [Bool.eq_false_iff]
  intro h
  exact absurd (secondFits_bounds h).1.1 (by decide)

/-- A line end belongs to no sequence that was begun before it. -/
theorem firstPiece_newline (a : UInt8) (x y : Text) :
    firstPiece a (x ++ newline :: y) = firstPiece a x := by
  have hnewline : isContinuation newline = false := rfl
  rcases x with _ | ⟨b, _ | ⟨d, _ | ⟨e, x⟩⟩⟩
  · rcases y with _ | ⟨f, _ | ⟨g, y⟩⟩ <;> simp [firstPiece, hnewline, secondFits_newline]
  · rcases y with _ | ⟨f, y⟩ <;> simp [firstPiece, hnewline]
  · simp [firstPiece, hnewline]
  · simp [firstPiece]

theorem firstPiece_le (a : UInt8) (x : Text) : (firstPiece a x).2 ≤ x.length := by
  rcases x with _ | ⟨b, _ | ⟨d, _ | ⟨e, x⟩⟩⟩ <;> simp only [firstPiece] <;> grind

theorem piecesAfter_newline {skip : Nat} {x : Text} (h : skip ≤ x.length) (y : Text) :
    piecesAfter skip (x ++ newline :: y) = piecesAfter skip x ++ pieces (newline :: y) := by
  fun_induction piecesAfter skip x with
  | case1 skip =>
    obtain rfl : skip = 0 := Nat.le_zero.1 h
    rfl
  | case2 skip b x ih => exact ih (Nat.le_of_succ_le_succ h)
  | case3 a x ih =>
    rw [List.cons_append, piecesAfter, firstPiece_newline, ih (firstPiece_le a x)]
    rfl

theorem pieces_newline (x y : Text) :
    pieces (x ++ newline :: y) = pieces x ++ pieces (newline :: y) :=
  piecesAfter_newline (Nat.zero_le x.length) y

theorem bytes_ne_nil (p : Piece) : p.bytes ≠ [] := by
  cases p with
  | rune c =>
    intro h
    have hlength := String.length_utf8EncodeChar c
    have hpos := c.utf8Size_pos
    rw [show String.utf8EncodeChar c = [] from h, List.length_nil] at hlength
    omega
  | stray b => simp [Piece.bytes]

/-- What is left of a text when its blanks are cut off begins with its first piece that is not
blank. -/
theorem head?_trim (s : Text) :
    (trim s).head? = ((pieces s).find? (!·.isBlank)).bind fun p => p.bytes.head? := by
  cases hfind : (pieces s).find? (!·.isBlank) with
  | none =>
    have hblank : ∀ p ∈ pieces s, p.isBlank = true := by simpa using hfind
    have hdrop : (pieces s).dropWhile Piece.isBlank = [] := by
      rw [← List.append_nil (pieces s), List.dropWhile_append_of_pos hblank, List.dropWhile_nil]
    simp [trim, hdrop]
  | some p =>
    obtain ⟨hfound, before, rest, hpieces, hblank⟩ := List.find?_eq_some_iff_append.1 hfind
    have hp : p.isBlank = false := by simpa using hfound
    have hdrop : (pieces s).dropWhile Piece.isBlank = p :: rest := by
      rw [hpieces, List.dropWhile_append_of_pos (by simpa using hblank),
        List.dropWhile_cons_of_neg (by simp [hp])]
    -- The blanks at the other end are cut off behind `p`.
    have hkeep : ∃ zs, (p :: rest).reverse.dropWhile Piece.isBlank = zs ++ [p] := by
      rw [List.reverse_cons, List.dropWhile_append]
      split
      · exact ⟨[], List.dropWhile_cons_of_neg (by simp [hp])⟩
      · exact ⟨_, rfl⟩
    obtain ⟨zs, hzs⟩ := hkeep
    obtain ⟨b, bs, hbytes⟩ := List.exists_cons_of_ne_nil (bytes_ne_nil p)
    simp only [trim, hdrop, hzs]
    simp [hbytes]

theorem head?_trim_newline {x : Text} (h : trim x ≠ []) (y : Text) :
    (trim (x ++ newline :: y)).head? = (trim x).head? := by
  have hhead : (trim x).head? ≠ none := by simpa using h
  rw [head?_trim] at hhead ⊢
  rw [head?_trim, pieces_newline, List.find?_append]
  cases hfind : (pieces x).find? (!·.isBlank) with
  | none => simp [hfind] at hhead
  | some p => rfl

end OnePass.Text
