import Mathlib.Order.Bounds.Basic
import Mathlib.Order.MinMax
import OnePass.Text.Distance

/-!
# The edit distance is the least number of edits

An edit puts in, takes out or replaces one byte at any place. The table of all prefixes of two texts
gives the least number of edits between them, since one edit more changes an entry by one at most.
The rows that are filled one after the other are the rows of this table, read backwards.
-/

set_option autoImplicit false

namespace OnePass.Text

inductive Edit : Text → Text → Prop where
  | insertion (u v : Text) (b : UInt8) : Edit (u ++ v) (u ++ b :: v)
  | deletion (u v : Text) (b : UInt8) : Edit (u ++ b :: v) (u ++ v)
  | substitution (u v : Text) (a b : UInt8) : Edit (u ++ a :: v) (u ++ b :: v)

inductive Edits : Nat → Text → Text → Prop where
  | none (s : Text) : Edits 0 s s
  | next {n : Nat} {s t w : Text} (first : Edit s t) (rest : Edits n t w) : Edits (n + 1) s w

section Edits

variable {s t : Text} {n : Nat}

theorem Edit.cons (h : Edit s t) (x : UInt8) : Edit (x :: s) (x :: t) := by
  cases h with
  | insertion u v b => exact .insertion (x :: u) v b
  | deletion u v b => exact .deletion (x :: u) v b
  | substitution u v a b => exact .substitution (x :: u) v a b

theorem Edit.reverse (h : Edit s t) : Edit s.reverse t.reverse := by
  cases h with
  | insertion u v b => simpa using Edit.insertion v.reverse u.reverse b
  | deletion u v b => simpa using Edit.deletion v.reverse u.reverse b
  | substitution u v a b => simpa using Edit.substitution v.reverse u.reverse a b

theorem Edits.cons (h : Edits n s t) (x : UInt8) : Edits n (x :: s) (x :: t) := by
  induction h with
  | none s => exact .none (x :: s)
  | next first _ ih => exact .next (first.cons x) ih

theorem Edits.reverse (h : Edits n s t) : Edits n s.reverse t.reverse := by
  induction h with
  | none s => exact .none s.reverse
  | next first _ ih => exact .next first.reverse ih

end Edits

def entry : Text → Text → Nat
  | [], t => t.length
  | _ :: s, [] => s.length + 1
  | a :: s, b :: t =>
    min (min (entry s (b :: t) + 1) (entry (a :: s) t + 1)) (entry s t + if a = b then 0 else 1)
termination_by s t => s.length + t.length

section Table

variable (a b : UInt8) (s t : Text)

theorem entry_nil_right : entry s [] = s.length := by
  cases s <;> simp [entry]

theorem entry_self : entry s s = 0 := by
  induction s with
  | nil => simp [entry]
  | cons a s ih => simp [entry, ih]

theorem entry_cons_left_le : entry (a :: s) t ≤ entry s t + 1 := by
  cases t with
  | nil => simp [entry_nil_right]
  | cons b t =>
    rw [entry]
    omega

theorem entry_cons_right_le : entry s (b :: t) ≤ entry s t + 1 := by
  cases s with
  | nil => simp [entry]
  | cons a s =>
    rw [entry]
    omega

theorem entry_le_cons_left : entry s t ≤ entry (a :: s) t + 1 := by
  induction t with
  | nil =>
    simp only [entry_nil_right, List.length_cons]
    omega
  | cons b t ih =>
    have hright := entry_cons_right_le b s t
    rw [entry]
    omega

theorem entry_replace_le : entry (a :: s) t ≤ entry (b :: s) t + 1 := by
  induction t with
  | nil => simp [entry_nil_right]
  | cons c t ih =>
    rw [entry, entry]
    split <;> split <;> omega

variable {s} {s' : Text}

theorem entry_cons_le_cons (h : ∀ t, entry s t ≤ entry s' t + 1) :
    entry (a :: s) t ≤ entry (a :: s') t + 1 := by
  induction t with
  | nil => simpa [entry_nil_right] using h []
  | cons b t ih =>
    have hshort := h t
    have hlong := h (b :: t)
    rw [entry, entry]
    omega

theorem entry_append_le_append (h : ∀ t, entry s t ≤ entry s' t + 1) (u : Text) :
    entry (u ++ s) t ≤ entry (u ++ s') t + 1 := by
  induction u generalizing t with
  | nil => exact h t
  | cons x u ih => exact entry_cons_le_cons x t ih

variable {t}

/-- One edit of the first text changes an entry by one at most. -/
theorem Edit.entry_le (h : Edit s s') (t : Text) : entry s t ≤ entry s' t + 1 := by
  cases h with
  | insertion u v b => exact entry_append_le_append t (entry_le_cons_left b v) u
  | deletion u v b => exact entry_append_le_append t (entry_cons_left_le b v) u
  | substitution u v a b => exact entry_append_le_append t (entry_replace_le a b v) u

theorem Edits.entry_le {n : Nat} (h : Edits n s t) : entry s t ≤ n := by
  induction h with
  | none s => rw [entry_self]
  | @next n s t w first _ ih =>
    have hfirst := first.entry_le w
    omega

end Table

/-- An entry is the number of some edits: those that its least neighbour is reached by, and one more
unless a byte is kept. -/
theorem edits_entry (s t : Text) : Edits (entry s t) s t := by
  fun_induction entry s t with
  | case1 t =>
    induction t with
    | nil => exact .none []
    | cons b t ih => exact .next (.insertion [] [] b) (ih.cons b)
  | case2 a s =>
    induction s generalizing a with
    | nil => exact .next (.deletion [] [] a) (.none [])
    | cons b s ih => exact .next (.deletion [] (b :: s) a) (ih b)
  | case3 a s b t hdelete hinsert hkeep =>
    have hdelete : Edits (entry s (b :: t) + 1) (a :: s) (b :: t) :=
      .next (.deletion [] s a) hdelete
    have hinsert : Edits (entry (a :: s) t + 1) (a :: s) (b :: t) :=
      .next (.insertion [] (a :: s) b) (hinsert.cons b)
    have hkeep : Edits (entry s t + if a = b then 0 else 1) (a :: s) (b :: t) := by
      split
      case isTrue h =>
        subst h
        exact hkeep.cons a
      case isFalse => exact .next (.substitution [] s a b) (hkeep.cons b)
    rcases min_choice (min (entry s (b :: t) + 1) (entry (a :: s) t + 1))
      (entry s t + if a = b then 0 else 1) with h | h
    · rw [h]
      rcases min_choice (entry s (b :: t) + 1) (entry (a :: s) t + 1) with h | h
      · rwa [h]
      · rwa [h]
    · rwa [h]

theorem isLeast_entry (s t : Text) : IsLeast {n | Edits n s t} (entry s t) :=
  ⟨edits_entry s t, fun _ h => h.entry_le⟩

/-- An edit at one place is one at another place of the texts read backwards. -/
theorem entry_reverse (s t : Text) : entry s.reverse t.reverse = entry s t := by
  refine (isLeast_entry s.reverse t.reverse).unique ⟨(edits_entry s t).reverse, fun n h => ?_⟩
  have hforth : Edits n s t := by simpa using h.reverse
  exact hforth.entry_le

def rowFrom (s : Text) : Text → Text → List Nat
  | _, [] => []
  | t, b :: bs => entry s (b :: t) :: rowFrom s (b :: t) bs

def row (s t : Text) : List Nat := entry s [] :: rowFrom s [] t

section Rows

variable (a : UInt8) (s t bs : Text)

theorem fillRow_rowFrom :
    fillRow a bs (entry s t) (entry (a :: s) t) (rowFrom s t bs) = rowFrom (a :: s) t bs := by
  induction bs generalizing t with
  | nil => rfl
  | cons b bs ih =>
    have hentry : min (min (entry s (b :: t) + 1) (entry (a :: s) t + 1))
        (entry s t + if a = b then 0 else 1) = entry (a :: s) (b :: t) := by
      rw [entry]
    simp only [rowFrom, fillRow, hentry, ih]

theorem nextRow_row : nextRow t (row s t) a = row (a :: s) t := by
  have hcorner : entry s [] + 1 = entry (a :: s) [] := by simp [entry_nil_right]
  simp only [row, nextRow, hcorner, fillRow_rowFrom]

theorem foldl_nextRow (p : Text) : s.foldl (nextRow t) (row p t) = row (s.reverse ++ p) t := by
  induction s generalizing p with
  | nil => rfl
  | cons a s ih => simp [nextRow_row, ih]

theorem rowFrom_nil : rowFrom [] t bs = List.range' (t.length + 1) bs.length := by
  induction bs generalizing t with
  | nil => rfl
  | cons b bs ih => simp [rowFrom, ih, entry, List.range'_succ]

theorem row_nil : row [] t = List.range (t.length + 1) := by
  simp [row, rowFrom_nil, entry, List.range_eq_range', List.range'_succ]

theorem getLastD_rowFrom : (rowFrom s t bs).getLastD (entry s t) = entry s (bs.reverse ++ t) := by
  induction bs generalizing t with
  | nil => rfl
  | cons b bs ih =>
    rw [rowFrom, List.getLastD_cons, ih, List.reverse_cons, List.append_assoc]
    rfl

end Rows

/-- The rows end in the entry of the table for both texts. -/
theorem distance_eq_entry (s t : Text) : distance s t = entry s t := by
  rw [distance, ← row_nil, foldl_nextRow, row, List.getLastD_cons, getLastD_rowFrom]
  simp [entry_reverse]

/-- The distance of two texts is the least number of single-byte insertions, deletions and
substitutions that turn one into the other. -/
theorem distance_isLeast (s t : Text) : IsLeast {n | Edits n s t} (distance s t) := by
  rw [distance_eq_entry]
  exact isLeast_entry s t

example : distance (utf8 "kitten") (utf8 "sitting") = 3 := by decide +kernel

end OnePass.Text
