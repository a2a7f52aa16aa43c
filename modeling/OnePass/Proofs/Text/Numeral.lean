import OnePass.Text.Numeral

/-!
# Hexadecimal numerals are read back

A numeral consists of digits, and the number that they denote is the one it was written for. Zeros
before it, up to a width, change neither.
-/

set_option autoImplicit false

namespace OnePass.Text

structure Denotes (ds : Text) (n : Nat) : Prop where
  digits : ∀ d ∈ ds, isHexDigit d = true
  value : valueOf 16 ds = n

theorem valueOf_concat (base : Nat) (ds : Text) (d : UInt8) :
    valueOf base (ds ++ [d]) = valueOf base ds * base + digitValue d := by
  simp [valueOf]

theorem isHexDigit_digitChar :
    ∀ n < 16, isHexDigit n.digitChar.toUInt8 = true ∧ digitValue n.digitChar.toUInt8 = n := by
  decide

theorem Denotes.concat {ds : Text} {n k : Nat} (h : Denotes ds n) (hk : k < 16) :
    Denotes (ds ++ [k.digitChar.toUInt8]) (n * 16 + k) where
  digits := by
    intro d hd
    rcases List.mem_append.1 hd with hd | hd
    · exact h.digits d hd
    · rw [List.mem_singleton.1 hd]
      exact (isHexDigit_digitChar k hk).1
  value := by rw [valueOf_concat, h.value, (isHexDigit_digitChar k hk).2]

theorem denotes_nil : Denotes [] 0 := ⟨by simp, rfl⟩

theorem denotes_hex (n : Nat) : Denotes (hex n) n := by
  induction n using Nat.strongRecOn with
  | ind n ih =>
    unfold hex digits at ih ⊢
    by_cases hn : n < 16
    · rw [Nat.toDigits_of_lt_base hn]
      simpa using denotes_nil.concat hn
    · rw [Nat.toDigits_of_base_le (by decide) (Nat.not_lt.1 hn), List.map_append]
      have hlast := (ih (n / 16) (by omega)).concat (Nat.mod_lt n (by decide))
      rwa [Nat.div_add_mod'] at hlast

theorem Denotes.zeros {ds : Text} {n : Nat} (h : Denotes ds n) (k : Nat) :
    Denotes (fill k 0x30 ++ ds) n where
  digits := by
    intro d hd
    rcases List.mem_append.1 hd with hd | hd
    · rw [List.eq_of_mem_replicate hd]
      rfl
    · exact h.digits d hd
  value := by
    rw [← h.value, valueOf, List.foldl_append]
    congr 1
    induction k with
    | zero => rfl
    | succ k ih => exact ih

theorem denotes_hexPadded (width n : Nat) : Denotes (hexPadded width n) n :=
  (denotes_hex n).zeros _

theorem length_hexPadded {width n : Nat} (hwidth : 0 < width) (hn : n < Nat.pow 16 width) :
    (hexPadded width n).length = width := by
  have hle : (hex n).length ≤ width := by
    rw [hex, digits, List.length_map]
    exact (Nat.length_toDigits_le_iff (by decide) hwidth).2 hn
  rw [hexPadded, padLeft, fill, List.length_append, List.length_replicate]
  omega

end OnePass.Text
