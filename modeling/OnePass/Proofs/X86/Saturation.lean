import OnePass.Proofs.X86.Computation

/-!
# Saturating truncation on x86-64

The conversion instruction yields the least integer for every double that it cannot represent. The
code that follows tells these doubles apart, so that what is left is truncation that saturates,
with zero for a NaN.
-/

set_option autoImplicit false

namespace OnePass

namespace Binary64

variable {x : Binary64}

theorem truncate_nonpos (h : x.isNegative = true) : x.truncate ≤ 0 := by
  simp only [truncate, h, if_true]
  exact Int.neg_nonpos_of_nonneg (Int.natCast_nonneg _)

theorem truncate_nonneg (h : x.isNegative = false) : 0 ≤ x.truncate := by
  simp only [truncate, h, Bool.false_eq_true, if_false]
  exact Int.natCast_nonneg _

theorem truncate_of_magnitude_eq_zero (h : x.magnitude = 0) : x.truncate = 0 := by
  have hs : x.significand = 0 := by simp [significand, h, hiddenBit]
  have hn : (scaleDown x.significand 1 (-x.exponent)).1 = 0 := by
    unfold scaleDown
    split <;> simp [hs]
  simp [truncate, hn]

theorem isFinite_of_not (hn : x.isNaN = false) (hi : x.isInfinite = false) :
    x.isFinite = true := by
  simp only [isNaN, isInfinite, isFinite, decide_eq_false_iff_not, decide_eq_true_eq] at *
  omega

theorem orderKey_pos_iff : 0 < x.orderKey ↔ x.isNegative = false ∧ x.magnitude ≠ 0 := by
  unfold orderKey
  cases x.isNegative with
  | false => simp [Nat.pos_iff_ne_zero]
  | true => simp

end Binary64

namespace X86

def leastWord : UInt64 := 0x8000000000000000

theorem toInt_leastWord : leastWord.toInt64.toInt = -0x8000000000000000 := by decide

/-- Subtracting one overflows for the least integer only. -/
theorem overflow_compareFlags_one (a : UInt64) :
    (compareFlags a 1).overflow = decide (a = leastWord) := by
  by_cases ha : a = leastWord
  · subst ha
    decide
  · have hne : a.toInt64.toInt ≠ -0x8000000000000000 := fun h =>
      ha (congrArg Int64.toUInt64 (Int64.toInt_inj.1 (h.trans toInt_leastWord.symm)))
    have hlo : -0x8000000000000000 ≤ a.toInt64.toInt := Int64.le_toInt _
    have hhi : a.toInt64.toInt < 0x8000000000000000 := Int64.toInt_lt _
    have hd : (a - 1).toInt64.toInt = a.toInt64.toInt - 1 := by
      rw [UInt64.toInt64_sub, Int64.toInt_sub]
      exact Int.bmod_eq_of_le (by change _ ≤ _ - 1; omega) (by change _ - 1 < _; omega)
    have h1 : (1 : UInt64).toInt64.toInt = 1 := rfl
    simp only [compareFlags, hd, h1, ha, ne_eq, not_true_eq_false, decide_false]

variable {x : Binary64}

theorem truncated_of_fits (hf : x.isFinite = true) (hlo : -0x8000000000000000 ≤ x.truncate)
    (hhi : x.truncate < 0x8000000000000000) :
    truncated x = x.saturate.toUInt64 := by
  have hnan : x.isNaN = false := by
    simp only [Binary64.isFinite, Binary64.isNaN, decide_eq_true_eq, decide_eq_false_iff_not] at *
    omega
  have hinf : x.isInfinite = false := by
    simp only [Binary64.isFinite, Binary64.isInfinite, decide_eq_true_eq,
      decide_eq_false_iff_not] at *
    omega
  have hmin : ¬x.truncate < Int64.minValue.toInt := Int.not_lt.2 hlo
  have hmax : ¬Int64.maxValue.toInt < x.truncate := Int.not_lt.2 (Int.le_sub_one_of_lt hhi)
  rw [truncated, if_pos ⟨hf, hlo, hhi⟩, Binary64.saturate, if_neg (by simp [hnan]),
    if_neg (by simp [hinf]), if_neg hmin, if_neg hmax]

/-- A conversion that does not yield the least integer is exact truncation. -/
theorem truncated_of_ne (h : truncated x ≠ leastWord) : truncated x = x.saturate.toUInt64 := by
  by_cases hf : x.isFinite ∧ -0x8000000000000000 ≤ x.truncate ∧ x.truncate < 0x8000000000000000
  · exact truncated_of_fits hf.1 hf.2.1 hf.2.2
  · exact absurd (if_neg hf) h

theorem saturate_of_infinite (hn : x.isNaN = false) (hi : x.isInfinite = true) :
    x.saturate = if 0 < x.orderKey then Int64.maxValue else Int64.minValue := by
  have hm : x.magnitude ≠ 0 := by
    simp only [Binary64.isInfinite, decide_eq_true_eq] at hi
    simp [hi, Binary64.infinityBits, Binary64.hiddenBit]
  cases hs : x.isNegative <;> simp [Binary64.saturate, Binary64.orderKey_pos_iff, hn, hi, hs, hm]

theorem saturate_of_below (hn : x.isNaN = false) (hi : x.isInfinite = false)
    (hb : x.truncate < -0x8000000000000000) :
    x.saturate = if 0 < x.orderKey then Int64.maxValue else Int64.minValue := by
  have hs : x.isNegative = true := by
    cases hs : x.isNegative with
    | true => rfl
    | false => have := Binary64.truncate_nonneg hs; omega
  have hb' : x.truncate < Int64.minValue.toInt := hb
  rw [Binary64.saturate, if_neg (by simp [hn]), if_neg (by simp [hi]), if_pos hb',
    if_neg (by simp [Binary64.orderKey_pos_iff, hs])]

theorem saturate_of_above (hn : x.isNaN = false) (hi : x.isInfinite = false)
    (ha : 0x8000000000000000 ≤ x.truncate) :
    x.saturate = if 0 < x.orderKey then Int64.maxValue else Int64.minValue := by
  have hs : x.isNegative = false := by
    cases hs : x.isNegative with
    | false => rfl
    | true => have := Binary64.truncate_nonpos hs; omega
  have hm : x.magnitude ≠ 0 := fun h => by
    have := Binary64.truncate_of_magnitude_eq_zero h
    omega
  have h1 : ¬x.truncate < Int64.minValue.toInt := by
    change ¬x.truncate < -0x8000000000000000
    omega
  have h2 : Int64.maxValue.toInt < x.truncate := by
    change 0x7fffffffffffffff < x.truncate
    omega
  rw [Binary64.saturate, if_neg (by simp [hn]), if_neg (by simp [hi]), if_neg h1, if_pos h2,
    if_pos (Binary64.orderKey_pos_iff.2 ⟨hs, hm⟩)]

/-- What the least integer stands for, but for a NaN: the sign tells. -/
theorem saturate_of_least (h : truncated x = leastWord) (hn : x.isNaN = false) :
    x.saturate = if 0 < x.orderKey then Int64.maxValue else Int64.minValue := by
  cases hi : x.isInfinite with
  | true => exact saturate_of_infinite hn hi
  | false =>
    rcases Int.lt_or_le x.truncate (-0x8000000000000000) with hb | hlo
    · exact saturate_of_below hn hi hb
    rcases Int.lt_or_le x.truncate 0x8000000000000000 with hhi | ha
    · have hf := Binary64.isFinite_of_not hn hi
      have hs : x.saturate = Int64.minValue :=
        congrArg UInt64.toInt64 ((truncated_of_fits hf hlo hhi).symm.trans h)
      have ht : (Int64.ofInt x.truncate).toInt = -0x8000000000000000 := by
        rw [truncated, if_pos ⟨hf, hlo, hhi⟩] at h
        exact (congrArg (fun w => w.toInt64.toInt) h).trans toInt_leastWord
      rw [Int64.toInt_ofInt_of_le hlo hhi] at ht
      have hneg : x.isNegative = true := by
        cases hneg : x.isNegative with
        | true => rfl
        | false => have := Binary64.truncate_nonneg hneg; omega
      rw [hs, if_neg (by simp [Binary64.orderKey_pos_iff, hneg])]
    · exact saturate_of_above hn hi ha

theorem floatFlags_self_parity (x : Binary64) : (floatFlags x x).parity = x.isNaN := by
  cases h : x.isNaN <;> simp [floatFlags, h]

/-- Compared with zero, a double that is not a NaN is below or equal unless its key is positive. -/
theorem floatFlags_zero (hn : x.isNaN = false) :
    ((floatFlags x ⟨0⟩).carry || (floatFlags x ⟨0⟩).zero) = !decide (0 < x.orderKey) := by
  have h0 : (⟨0⟩ : Binary64).isNaN = false := by decide
  have hk : (⟨0⟩ : Binary64).orderKey = 0 := by decide
  simp [floatFlags, hn, h0, hk]
  grind

/-- The saturation code puts the saturated double into its register. Of the SSE registers it uses
its scratch register only. -/
theorem saturation_computes {spoiled : Gp → Bool} {world : World Machine} {base : UInt64}
    {code : Array UInt8} {start stop : Nat} {m : Machine} {r : Gp} {x : Xmm}
    (hr : spoiled r = true) (hx : x ≠ ⟨15⟩)
    (p : Point spoiled code start stop m m (saturationCode r x)) :
    Computes spoiled world base code start stop m
      (fun m' => m'.get r = (m.getX x).saturate.toUInt64 ∧
        ∀ y : Xmm, y ≠ ⟨15⟩ → m'.getX y = m.getX y) m := by
  refine p.plain trivial hr rfl rfl fun p => ?_
  refine p.plain trivial trivial rfl rfl fun p => ?_
  have h1 : (1 : Int64).toUInt64 = 1 := rfl
  by_cases hleast : truncated (m.getX x) = leastWord
  · refine p.fall rfl (by simp [taken?, jno, h1, overflow_compareFlags_one, hleast]) fun p => ?_
    refine p.plain trivial trivial rfl rfl fun p => ?_
    cases hn : (m.getX x).isNaN with
    | true =>
      have hsat : (m.getX x).saturate = 0 := by simp [Binary64.saturate, hn]
      refine p.leap rfl rfl (by simp) (by simp [taken?, jp, floatFlags_self_parity, hn])
        fun p => ?_
      refine p.plain trivial hr rfl rfl fun p => p.finish ?_
      simp [hsat]
      rfl
    | false =>
      have hsat := saturate_of_least hleast hn
      refine p.fall rfl (by simp [taken?, jp, floatFlags_self_parity, hn]) fun p => ?_
      refine p.plain trivial trivial rfl rfl fun p => ?_
      refine p.plain trivial trivial rfl rfl fun p => ?_
      by_cases hpos : 0 < (m.getX x).orderKey
      · refine p.fall rfl (by simp [taken?, jbe, Ne.symm hx, floatFlags_zero hn, hpos]) fun p => ?_
        refine p.plain trivial hr rfl rfl fun p => ?_
        refine p.leap rfl rfl (by simp) rfl fun p =>
          p.finish ⟨?_, fun y hy => by simp [Ne.symm hy]⟩
        simp [hsat, hpos, hleast]
        decide
      · refine p.leap rfl rfl (by simp)
          (by simp [taken?, jbe, Ne.symm hx, floatFlags_zero hn, hpos]) fun p =>
          p.finish ⟨?_, fun y hy => by simp [Ne.symm hy]⟩
        simp [hsat, hpos, hleast]
        decide
  · refine p.leap rfl (List.append_nil _).symm (by simp)
      (by simp [taken?, jno, h1, overflow_compareFlags_one, hleast]) fun p => p.finish ?_
    simp [truncated_of_ne hleast]

end X86

end OnePass
