import Mathlib.Data.Rat.Floor
import Mathlib.Algebra.Order.Field.Power
import OnePass.Binary64.Arithmetic

/-!
# The numbers that doubles denote

A finite double denotes a rational number. Truncation toward zero and saturation at the ends of the
64-bit integers are read off that number.
-/

set_option autoImplicit false

namespace OnePass.Binary64

def absValue (x : Binary64) : ℚ := x.significand * (2 : ℚ) ^ x.exponent

def value (x : Binary64) : ℚ := if x.isNegative then -x.absValue else x.absValue

def towardZero (v : ℚ) : ℤ := if 0 ≤ v then ⌊v⌋ else ⌈v⌉

/-- The 64-bit integer `n` is the double `x` truncated toward zero; a double beyond the integers
gives the one that is next to it, and a NaN gives zero. -/
structure SaturatesTo (x : Binary64) (n : Int64) : Prop where
  nan : x.isNaN = true → n = 0
  infinite : x.isInfinite = true → n = if x.isNegative then Int64.minValue else Int64.maxValue
  large : x.isFinite = true → 0x8000000000000000 ≤ x.value → n = Int64.maxValue
  small : x.isFinite = true → x.value ≤ -0x8000000000000000 → n = Int64.minValue
  fits : x.isFinite = true → -0x8000000000000000 < x.value → x.value < 0x8000000000000000 →
    n.toInt = towardZero x.value

variable {x : Binary64}

theorem absValue_nonneg (x : Binary64) : 0 ≤ x.absValue :=
  mul_nonneg (Nat.cast_nonneg _) (zpow_nonneg (by norm_num) _)

/-- A magnitude as the quotient of natural numbers that truncation divides. -/
theorem absValue_eq_div (x : Binary64) :
    x.absValue = ((scaleDown x.significand 1 (-x.exponent)).1 : ℚ) /
      (scaleDown x.significand 1 (-x.exponent)).2 := by
  unfold absValue scaleDown
  by_cases h : 0 ≤ -x.exponent
  · obtain ⟨k, hk⟩ := Int.eq_ofNat_of_zero_le h
    rw [if_pos h, hk, ← neg_neg x.exponent, hk]
    simp [div_eq_mul_inv]
  · obtain ⟨k, hk⟩ := Int.eq_ofNat_of_zero_le (show 0 ≤ x.exponent by omega)
    rw [if_neg h, neg_neg, hk]
    simp

theorem floor_absValue (x : Binary64) :
    ⌊x.absValue⌋ = ((scaleDown x.significand 1 (-x.exponent)).1 /
      (scaleDown x.significand 1 (-x.exponent)).2 : ℕ) := by
  rw [absValue_eq_div, Rat.floor_natCast_div_natCast]
  norm_cast

/-- Dividing magnitudes truncates the number toward zero. -/
theorem truncate_eq (x : Binary64) : x.truncate = towardZero x.value := by
  have hu := x.absValue_nonneg
  unfold truncate value towardZero
  simp only [← floor_absValue]
  cases x.isNegative with
  | false => simp [hu]
  | true =>
    by_cases h0 : x.absValue = 0
    · simp [h0]
    · have hneg : ¬0 ≤ -x.absValue := by
        rw [neg_nonneg]
        exact fun h => h0 (le_antisymm h hu)
      simp [hneg, Int.ceil_neg]

theorem not_special_of_isFinite (hf : x.isFinite = true) :
    x.isNaN = false ∧ x.isInfinite = false := by
  simp only [isFinite, isNaN, isInfinite, decide_eq_true_eq, decide_eq_false_iff_not] at *
  omega

theorem towardZero_lt {v : ℚ} {n : ℤ} (hn : 0 < n) (h : v < n) : towardZero v < n := by
  unfold towardZero
  split
  · exact Int.floor_lt.2 h
  · rename_i hv
    exact lt_of_le_of_lt (Int.ceil_le.2 (by simpa using (le_of_lt (not_le.1 hv)))) hn

theorem lt_towardZero {v : ℚ} {n : ℤ} (hn : n < 0) (h : n < v) : n < towardZero v := by
  unfold towardZero
  split
  · rename_i hv
    exact lt_of_lt_of_le hn (Int.floor_nonneg.2 hv)
  · exact Int.lt_ceil.2 h

theorem le_towardZero {v : ℚ} {n : ℤ} (hn : 0 < n) (h : n ≤ v) : n ≤ towardZero v := by
  have hv : 0 ≤ v := le_trans (by exact_mod_cast le_of_lt hn) h
  rw [towardZero, if_pos hv]
  exact Int.le_floor.2 h

theorem towardZero_le {v : ℚ} {n : ℤ} (hn : n < 0) (h : v ≤ n) : towardZero v ≤ n := by
  have hv : ¬0 ≤ v := not_le.2 (lt_of_le_of_lt h (by exact_mod_cast hn))
  rw [towardZero, if_neg hv]
  exact Int.ceil_le.2 h

theorem saturate_of_isFinite (hf : x.isFinite = true) :
    x.saturate = if towardZero x.value < -0x8000000000000000 then Int64.minValue
      else if 0x7fffffffffffffff < towardZero x.value then Int64.maxValue
      else Int64.ofInt (towardZero x.value) := by
  obtain ⟨hn, hi⟩ := not_special_of_isFinite hf
  have hmin : Int64.minValue.toInt = -0x8000000000000000 := by decide
  have hmax : Int64.maxValue.toInt = 0x7fffffffffffffff := by decide
  simp only [saturate, hn, hi, hmin, hmax, truncate_eq, Bool.false_eq_true, if_false]

/-- Saturating truncation is what its name says, by the number that is denoted. -/
theorem saturatesTo_saturate (x : Binary64) : x.SaturatesTo x.saturate where
  nan h := by simp [saturate, h]
  infinite h := by
    have hn : x.isNaN = false := by
      simp only [isInfinite, isNaN, decide_eq_true_eq, decide_eq_false_iff_not] at *
      omega
    simp [saturate, h, hn]
  large hf h := by
    have ht := le_towardZero (n := 0x8000000000000000) (by decide) (by exact_mod_cast h)
    rw [saturate_of_isFinite hf, if_neg (by omega), if_pos (by omega)]
  small hf h := by
    have ht := towardZero_le (n := -0x8000000000000000) (by decide) (by exact_mod_cast h)
    rw [saturate_of_isFinite hf]
    rcases Int.lt_or_eq_of_le ht with hlt | heq
    · rw [if_pos hlt]
    · rw [heq]
      decide
  fits hf hlo hhi := by
    have hlow := lt_towardZero (n := -0x8000000000000000) (by decide) (by exact_mod_cast hlo)
    have hhigh := towardZero_lt (n := 0x8000000000000000) (by decide) (by exact_mod_cast hhi)
    rw [saturate_of_isFinite hf, if_neg (by omega), if_neg (by omega),
      Int64.toInt_ofInt_of_le (by omega) (by omega)]

end OnePass.Binary64
