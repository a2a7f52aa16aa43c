import OnePass.Proofs.Binary64.Value

/-!
# The range of doubles

A positive number is rounded at the exponent that leaves it 53 bits, or at the least one. It has no
nearest finite double just when it lies at or beyond the middle between the largest double and the
next power of two.
-/

set_option autoImplicit false

namespace OnePass.Binary64

def overflowLimit : ℚ := 2 ^ 1024 - 2 ^ 970

theorem overflowLimit_eq : overflowLimit = (2 ^ 54 - 1) * 2 ^ 970 := by
  rw [overflowLimit, sub_mul, ← pow_add, one_mul]

theorem overflowLimit_pos : 0 < overflowLimit := by
  rw [overflowLimit_eq]
  exact mul_pos (by norm_num) (by positivity)

section Quotients

variable {n d k : Nat}

theorem nearestNat_bounds (n d : Nat) : n / d ≤ nearestNat n d ∧ nearestNat n d ≤ n / d + 1 := by
  unfold nearestNat
  dsimp only
  split_ifs <;> omega

/-- An even number is reached from half below it on, since ties go to even numbers. -/
theorem le_nearestNat_iff (hd : 0 < d) (hk : k % 2 = 0) :
    k ≤ nearestNat n d ↔ 2 * (k * d) ≤ 2 * n + d := by
  have hn : n / d * d + n % d = n := Nat.div_add_mod' n d
  have hr : n % d < d := Nat.mod_lt n hd
  have hup {a b : Nat} (h : a ≤ b) : a * d ≤ b * d := Nat.mul_le_mul_right d h
  unfold nearestNat
  dsimp only
  generalize n / d = q at hn ⊢
  have hsucc : (q + 1) * d = q * d + d := Nat.succ_mul q d
  have hsucc2 : (q + 2) * d = q * d + d + d := by rw [Nat.succ_mul, hsucc]
  rcases Nat.lt_or_ge q k with hlt | hge
  · rcases Nat.lt_or_ge (q + 1) k with hlt | hge
    · have := hup (show q + 2 ≤ k from hlt)
      split_ifs <;> constructor <;> intro <;> omega
    · obtain rfl : k = q + 1 := by omega
      split_ifs <;> omega
  · have := hup hge
    split_ifs <;> constructor <;> intro <;> omega

theorem scaleDown_pos (n : Nat) (hd : 0 < d) (q : Int) : 0 < (scaleDown n d q).2 := by
  unfold scaleDown
  split_ifs
  · exact Nat.mul_pos hd (Nat.pow_pos (by decide))
  · exact hd

theorem scaleDown_ratio (n d : Nat) (q : Int) :
    ((scaleDown n d q).1 : ℚ) / (scaleDown n d q).2 = n / d / 2 ^ q := by
  unfold scaleDown
  by_cases h : 0 ≤ q
  · obtain ⟨m, rfl⟩ := Int.eq_ofNat_of_zero_le h
    rw [if_pos h]
    simp [div_div]
  · obtain ⟨m, hm⟩ := Int.eq_ofNat_of_zero_le (show 0 ≤ -q by omega)
    rw [if_neg h, ← neg_neg q, hm]
    simp [div_eq_mul_inv, mul_right_comm]

theorem le_div_iff_ratio (hd : 0 < d) : k ≤ n / d ↔ (k : ℚ) ≤ n / d := by
  rw [Nat.le_div_iff_mul_le hd, le_div_iff₀ (by exact_mod_cast hd)]
  norm_cast

/-- A quotient lies between the powers of two that the bit lengths of its parts tell. -/
theorem ratio_bounds (hn : n ≠ 0) (hd : d ≠ 0) :
    (2 : ℚ) ^ ((n.log2 : Int) - d.log2 - 1) < n / d ∧
      (n : ℚ) / d < 2 ^ ((n.log2 : Int) - d.log2 + 1) := by
  have hpos : (0 : ℚ) < d := by exact_mod_cast Nat.pos_of_ne_zero hd
  have hn1 : (2 : ℚ) ^ (n.log2 : Int) ≤ n := by exact_mod_cast Nat.log2_self_le hn
  have hn2 : (n : ℚ) < 2 ^ ((n.log2 : Int) + 1) := by exact_mod_cast Nat.lt_log2_self
  have hd1 : (2 : ℚ) ^ (d.log2 : Int) ≤ d := by exact_mod_cast Nat.log2_self_le hd
  have hd2 : (d : ℚ) < 2 ^ ((d.log2 : Int) + 1) := by exact_mod_cast Nat.lt_log2_self
  constructor
  · rw [lt_div_iff₀ hpos]
    calc (2 : ℚ) ^ ((n.log2 : Int) - d.log2 - 1) * d
        < 2 ^ ((n.log2 : Int) - d.log2 - 1) * 2 ^ ((d.log2 : Int) + 1) := by gcongr
      _ = 2 ^ (n.log2 : Int) := by rw [← zpow_add₀ (by norm_num)]; congr 1; omega
      _ ≤ n := hn1
  · rw [div_lt_iff₀ hpos]
    calc (n : ℚ) < 2 ^ ((n.log2 : Int) + 1) := hn2
      _ = 2 ^ ((n.log2 : Int) - d.log2 + 1) * 2 ^ (d.log2 : Int) := by
        rw [← zpow_add₀ (by norm_num)]; congr 1; omega
      _ ≤ 2 ^ ((n.log2 : Int) - d.log2 + 1) * d := by gcongr

end Quotients

section Overflow

variable {num den : Nat}

def roundedAt (num den : Nat) (q : Int) : Nat :=
  (q + 1074).toNat * hiddenBit + nearestNat (scaleDown num den q).1 (scaleDown num den q).2

theorem roundedAt_le (hd : 0 < den) {q : Int} (h : (num : ℚ) / den / 2 ^ q < 2 ^ 53) :
    roundedAt num den q ≤ ((q + 1074).toNat + 2) * hiddenBit := by
  have hquotient : ¬2 ^ 53 ≤ (scaleDown num den q).1 / (scaleDown num den q).2 := by
    rw [le_div_iff_ratio (scaleDown_pos num hd q), scaleDown_ratio, not_le]
    exact_mod_cast h
  have hnear := (nearestNat_bounds (scaleDown num den q).1 (scaleDown num den q).2).2
  simp only [roundedAt, hiddenBit]
  omega

theorem le_roundedAt (hd : 0 < den) {q : Int} (h : 2 ^ 52 ≤ (num : ℚ) / den / 2 ^ q) :
    ((q + 1074).toNat + 1) * hiddenBit ≤ roundedAt num den q := by
  have hquotient : 2 ^ 52 ≤ (scaleDown num den q).1 / (scaleDown num den q).2 := by
    rw [le_div_iff_ratio (scaleDown_pos num hd q), scaleDown_ratio]
    exact_mod_cast h
  have hnear := (nearestNat_bounds (scaleDown num den q).1 (scaleDown num den q).2).1
  simp only [roundedAt, hiddenBit]
  omega

/-- The exponent that a positive number is rounded at leaves it less than 54 bits, and less than 53
only if it is the least one. -/
theorem nearestMagnitude?_eq (hn : num ≠ 0) (hd : 0 < den) :
    ∃ q : Int, -1074 ≤ q ∧ (num : ℚ) / den / 2 ^ q < 2 ^ 53 ∧
      (-1074 < q → 2 ^ 52 ≤ (num : ℚ) / den / 2 ^ q) ∧
      nearestMagnitude? num den =
        if roundedAt num den q < infinityBits then some (roundedAt num den q) else none := by
  obtain ⟨hlow, hhigh⟩ := ratio_bounds hn hd.ne'
  have htwo : (2 : ℚ) ≠ 0 := two_ne_zero
  unfold nearestMagnitude? roundedAt
  rw [if_neg hn]
  generalize (num.log2 : Int) - den.log2 = spread at hlow hhigh ⊢
  generalize hfirst : max (spread - 53) (-1074) = first
  have hdiv : 2 * hiddenBit ≤ (scaleDown num den first).1 / (scaleDown num den first).2 ↔
      (2 : ℚ) ^ 53 ≤ num / den / 2 ^ first := by
    rw [le_div_iff_ratio (scaleDown_pos num hd first), scaleDown_ratio]
    norm_num [hiddenBit]
  by_cases hcarry : (2 : ℚ) ^ 53 ≤ num / den / 2 ^ first
  · refine ⟨first + 1, by omega, ?_, fun _ => ?_, ?_⟩
    · rw [div_lt_iff₀ (by positivity), ← zpow_natCast, ← zpow_add₀ htwo]
      refine hhigh.trans_le (zpow_le_zpow_right₀ (by norm_num) ?_)
      push_cast
      omega
    · rw [le_div_iff₀ (by positivity)] at hcarry ⊢
      refine le_trans (le_of_eq ?_) hcarry
      rw [zpow_add_one₀ htwo]
      ring
    · simp only [hfirst, if_pos (hdiv.2 hcarry)]
  · refine ⟨first, by omega, not_le.1 hcarry, fun hq => ?_, ?_⟩
    · rw [le_div_iff₀ (by positivity), ← zpow_natCast, ← zpow_add₀ htwo]
      refine le_trans (zpow_le_zpow_right₀ (by norm_num) ?_) hlow.le
      push_cast
      omega
    · simp only [hfirst, if_neg (mt hdiv.1 hcarry)]

/-- At the last exponent of finite doubles, the pattern is infinite from the limit on. -/
theorem infinite_at_last_exponent (hd : 0 < den) :
    infinityBits ≤ roundedAt num den 971 ↔ overflowLimit ≤ (num : ℚ) / den := by
  have hpos := scaleDown_pos num hd 971
  have hratio := scaleDown_ratio num den 971
  have hlimit : overflowLimit = (2 ^ 53 - 1 / 2) * 2 ^ (971 : Int) := by
    rw [overflowLimit_eq, show (971 : Int) = (970 : Nat) + 1 from rfl, zpow_add_one₀ two_ne_zero,
      zpow_natCast]
    generalize (2 : ℚ) ^ 970 = x
    ring
  unfold roundedAt
  generalize scaleDown num den 971 = scaled at hpos hratio ⊢
  have heven : infinityBits ≤ (971 + 1074 : Int).toNat * hiddenBit + nearestNat scaled.1 scaled.2 ↔
      2 ^ 53 ≤ nearestNat scaled.1 scaled.2 := by
    simp only [infinityBits, hiddenBit]
    omega
  have hposQ : (0 : ℚ) < scaled.2 := by exact_mod_cast hpos
  rw [heven, le_nearestNat_iff hpos (by norm_num), hlimit, ← le_div_iff₀ (by positivity), ← hratio,
    le_div_iff₀ hposQ, ← Nat.cast_le (α := ℚ)]
  push_cast
  constructor <;> intro h <;> linarith

/-- A number that is rounded before the last exponent is below `2^1023`. -/
theorem lt_overflowLimit_of_exponent {x : ℚ} {q : Int} (hq : q < 971) (h : x / 2 ^ q < 2 ^ 53) :
    x < overflowLimit := by
  rw [overflowLimit_eq]
  calc x < 2 ^ 53 * 2 ^ q := (div_lt_iff₀ (by positivity)).1 h
    _ ≤ 2 ^ 53 * 2 ^ (970 : Int) := by
      gcongr
      · norm_num
      · omega
    _ ≤ (2 ^ 54 - 1) * 2 ^ (970 : Int) := by
      gcongr
      norm_num

/-- A number that is rounded behind the last exponent is at least `2^1024`. -/
theorem overflowLimit_le_of_exponent {x : ℚ} {q : Int} (hq : 971 < q) (h : 2 ^ 52 ≤ x / 2 ^ q) :
    overflowLimit ≤ x := by
  rw [overflowLimit_eq]
  calc (2 ^ 54 - 1 : ℚ) * 2 ^ 970 ≤ 2 ^ 52 * 2 ^ (972 : Int) := by
        rw [show (972 : Int) = (970 : Nat) + 2 from rfl, zpow_add₀ two_ne_zero, zpow_natCast,
          mul_comm ((2 : ℚ) ^ 970), ← mul_assoc]
        gcongr
        norm_num
    _ ≤ 2 ^ 52 * 2 ^ q := by
      gcongr
      · norm_num
      · omega
    _ ≤ x := (le_div_iff₀ (by positivity)).1 h

/-- A quotient has no nearest finite double just when it reaches the limit. -/
theorem nearestMagnitude?_eq_none_iff (hd : 0 < den) :
    nearestMagnitude? num den = none ↔ overflowLimit ≤ (num : ℚ) / den := by
  by_cases hn : num = 0
  · simp [nearestMagnitude?, hn, overflowLimit_pos]
  obtain ⟨q, hq, hbelow, habove, hcode⟩ := nearestMagnitude?_eq hn hd
  rw [hcode, ite_eq_right_iff]
  simp only [reduceCtorEq, imp_false, not_lt]
  rcases lt_trichotomy q 971 with hlt | rfl | hgt
  · have hsmall := lt_overflowLimit_of_exponent hlt hbelow
    have hfinite := roundedAt_le hd hbelow
    have hexponent : (q + 1074).toNat + 2 < 0x7ff := by omega
    have hpattern := Nat.mul_lt_mul_of_pos_right hexponent (show 0 < hiddenBit by decide)
    exact iff_of_false (hfinite.trans_lt hpattern).not_ge hsmall.not_ge
  · exact infinite_at_last_exponent hd
  · have habove' := habove (by omega)
    have hlarge := overflowLimit_le_of_exponent hgt habove'
    have hinfinite := le_roundedAt hd habove'
    have hexponent : 0x7ff ≤ (q + 1074).toNat + 1 := by omega
    exact iff_of_true ((Nat.mul_le_mul_right hiddenBit hexponent).trans hinfinite) hlarge

theorem overflowLimit_le_of_lt {exponent : Int} (h : 400 < exponent) :
    overflowLimit ≤ 10 ^ exponent := by
  calc overflowLimit ≤ 2 ^ 1024 := sub_le_self _ (by positivity)
    _ ≤ 2 ^ (3 * 342) := pow_le_pow_right₀ (by norm_num) (by norm_num)
    _ = 8 ^ 342 := by rw [pow_mul, show (2 : ℚ) ^ 3 = 8 by norm_num]
    _ ≤ 10 ^ 342 := by gcongr; norm_num
    _ = 10 ^ (342 : Int) := rfl
    _ ≤ 10 ^ exponent := zpow_le_zpow_right₀ (by norm_num) (by omega)

theorem lt_overflowLimit_of_lt {digits : Nat} {exponent : Int}
    (h : exponent < -(400 + digits.log2)) : (digits : ℚ) * 10 ^ exponent < overflowLimit := by
  have hdigits : (digits : ℚ) < 2 ^ (digits.log2 + 1) := by exact_mod_cast Nat.lt_log2_self
  calc (digits : ℚ) * 10 ^ exponent
      ≤ 10 ^ (digits.log2 + 1) * 10 ^ exponent := by
        gcongr
        exact hdigits.le.trans (by gcongr; norm_num)
    _ = 10 ^ ((digits.log2 : Int) + 1 + exponent) := by
        rw [zpow_add₀ (by norm_num)]
        rfl
    _ ≤ 1 := zpow_le_one_of_nonpos₀ (by norm_num) (by omega)
    _ < overflowLimit := by
        rw [overflowLimit_eq]
        exact one_lt_mul_of_lt_of_le (by norm_num) (one_le_pow₀ (by norm_num))

/-- A decimal number has no nearest finite double just when it reaches the limit. -/
theorem ofDecimal?_eq_none_iff (digits : Nat) (exponent : Int) :
    ofDecimal? digits exponent = none ↔ overflowLimit ≤ (digits : ℚ) * 10 ^ exponent := by
  unfold ofDecimal?
  by_cases hzero : digits = 0
  · simp [hzero, overflowLimit_pos]
  by_cases hhuge : 400 < exponent
  · have hdigits : (1 : ℚ) ≤ digits := by exact_mod_cast Nat.one_le_iff_ne_zero.2 hzero
    rw [if_neg hzero, if_pos hhuge]
    refine iff_of_true rfl ((overflowLimit_le_of_lt hhuge).trans ?_)
    exact le_mul_of_one_le_left (by positivity) hdigits
  by_cases htiny : exponent < -(400 + digits.log2)
  · rw [if_neg hzero, if_neg hhuge, if_pos htiny]
    exact iff_of_false (by simp) (lt_overflowLimit_of_lt htiny).not_ge
  rw [if_neg hzero, if_neg hhuge, if_neg htiny]
  by_cases hwhole : 0 ≤ exponent
  · obtain ⟨n, rfl⟩ := Int.eq_ofNat_of_zero_le hwhole
    rw [if_pos hwhole, Option.map_eq_none_iff, nearestMagnitude?_eq_none_iff Nat.one_pos]
    simp
  · obtain ⟨n, hn⟩ := Int.eq_ofNat_of_zero_le (show 0 ≤ -exponent by omega)
    have hpos : 0 < Nat.pow 10 (-exponent).toNat := Nat.pow_pos (by decide)
    rw [if_neg hwhole, Option.map_eq_none_iff, nearestMagnitude?_eq_none_iff hpos,
      ← neg_neg exponent, hn]
    simp [div_eq_mul_inv]

end Overflow

end OnePass.Binary64
