import OnePass.Expr.Eval

/-!
# Integer arithmetic in words

Signed integers as machines keep them: halves, parities and signs of words, powers by repeated
squaring, and division by minus one.
-/

set_option autoImplicit false

namespace OnePass

theorem toInt_toInt64 (w : UInt64) :
    w.toInt64.toInt = if w.toNat < 0x8000000000000000 then (w.toNat : Int)
      else w.toNat - 0x10000000000000000 := by
  have hlt := w.toNat_lt
  have h : w.toInt64.toInt = w.toBitVec.toInt := rfl
  rw [h, BitVec.toInt_eq_toNat_cond, UInt64.toNat_toBitVec]
  by_cases hw : w.toNat < 0x8000000000000000
  · rw [if_pos hw, if_pos (by omega)]
  · rw [if_neg hw, if_neg (by omega)]
    rfl

theorem toInt64_neg_iff (w : UInt64) : w.toInt64 < 0 ↔ 0x8000000000000000 ≤ w.toNat := by
  have h0 : (0 : Int64).toInt = 0 := rfl
  have hlt := w.toNat_lt
  rw [Int64.lt_iff_toInt_lt, h0, toInt_toInt64]
  split <;> omega

theorem toInt_of_small {w : UInt64} (h : w.toNat < 0x8000000000000000) :
    w.toInt64.toInt = w.toNat := by
  rw [toInt_toInt64, if_pos h]

theorem toNat_shift {w : UInt64} (h : w.toNat < 0x8000000000000000) :
    (w.toInt64 >>> 1).toUInt64.toNat = w.toNat / 2 := by
  have hs : (w.toInt64 >>> 1).toInt = w.toInt64.toInt >>> (1 : Nat) := by
    have hb : (w.toInt64 >>> 1).toBitVec = w.toInt64.toBitVec.sshiftRight 1 := by
      rw [Int64.toBitVec_shiftRight]
      rfl
    exact (congrArg BitVec.toInt hb).trans BitVec.toInt_sshiftRight
  have hi := toInt_toInt64 (w.toInt64 >>> 1).toUInt64
  have hr : (w.toInt64 >>> 1).toUInt64.toInt64 = w.toInt64 >>> 1 := rfl
  have hlt := (w.toInt64 >>> 1).toUInt64.toNat_lt
  rw [hr, hs, toInt_of_small h, Int.shiftRight_eq_div_pow] at hi
  split at hi <;> omega

theorem and_one_eq_zero_iff (w : UInt64) : w &&& 1 = 0 ↔ w.toNat % 2 = 0 := by
  rw [← UInt64.toNat_inj, UInt64.toNat_and]
  simp [Nat.and_one_is_mod]

theorem intPower_square (a : Int64) (n : Nat) : intPower a (2 * n) = intPower (a * a) n := by
  induction n with
  | zero => rfl
  | succ n ih =>
    rw [Nat.mul_add, Nat.mul_one, intPower, intPower, intPower, ih, Int64.mul_assoc]

/-- One round of repeated squaring: the factor for the lowest bit, and the square for the rest. -/
theorem intPower_round (a : Int64) (n : Nat) :
    intPower a n = (if n % 2 = 0 then 1 else a) * intPower (a * a) (n / 2) := by
  rcases Nat.mod_two_eq_zero_or_one n with h | h
  · rw [if_pos h, Int64.one_mul, ← intPower_square]
    congr 1
    omega
  · have hn : n = 2 * (n / 2) + 1 := by omega
    rw [if_neg (by omega), ← intPower_square, ← intPower]
    exact congrArg _ hn

theorem ofInt_tmod (a b : Int64) : Int64.ofInt (a.toInt.tmod b.toInt) = a % b := by
  rw [← Int64.toInt_mod, Int64.ofInt_toInt]

theorem ofInt_tdiv (a b : Int64) : Int64.ofInt (a.toInt.tdiv b.toInt) = a / b := by
  rw [← Int64.ofInt_toInt (a / b), Int64.toInt_div]
  apply Int64.toInt_inj.1
  simp

/-- A remainder from the quotient, also where the quotient wraps. -/
theorem mod_eq_sub (a b : Int64) : a % b = a - a / b * b := by
  rw [← ofInt_tmod, Int.tmod_def, Int64.ofInt_sub, Int64.ofInt_mul, Int64.ofInt_toInt,
    Int64.ofInt_toInt, ofInt_tdiv, Int64.mul_comm]

theorem div_neg_one (a : Int64) : a / -1 = -a := by
  apply Int64.toInt_inj.1
  have h : (-1 : Int64).toInt = -1 := rfl
  rw [Int64.toInt_div, h, Int64.toInt_neg, Int.tdiv_neg, Int.tdiv_one]

theorem mod_neg_one (a : Int64) : a % -1 = 0 := by
  apply Int64.toInt_inj.1
  have h : (-1 : Int64).toInt = -1 := rfl
  rw [Int64.toInt_mod, h, Int.tmod_neg, Int.tmod_one]
  rfl

/-- The result of an operator between integers without bounds. Division truncates toward zero; a
zero divisor and a negative exponent yield zero. -/
def Operator.exact : Operator → Int → Int → Int
  | .add, a, b => a + b
  | .sub, a, b => a - b
  | .mul, a, b => a * b
  | .div, a, b => if b = 0 then 0 else a.tdiv b
  | .mod, a, b => if b = 0 then 0 else a.tmod b
  | .pow, a, b => if b < 0 then 0 else Int.pow a b.toNat
  | .unknown, _, _ => 0

theorem intPower_eq (a : Int64) (n : Nat) : intPower a n = Int64.ofInt (Int.pow a.toInt n) := by
  induction n with
  | zero =>
    have hpow : Int.pow a.toInt 0 = 1 := Int.pow_zero _
    rw [hpow]
    rfl
  | succ n ih =>
    have hpow : Int.pow a.toInt (n + 1) = Int.pow a.toInt n * a.toInt := Int.pow_succ _ _
    rw [intPower, ih, hpow, Int64.ofInt_mul, Int64.ofInt_toInt, Int64.mul_comm]

theorem toInt_eq_zero_iff (b : Int64) : b.toInt = 0 ↔ b = 0 :=
  (show (0 : Int64).toInt = 0 from rfl) ▸ Int64.toInt_inj

/-- An operator between 64-bit integers gives the exact result, wrapped around. -/
theorem Operator.onInts_eq (op : Operator) (a b : Int64) :
    op.onInts a b = Int64.ofInt (op.exact a.toInt b.toInt) := by
  cases op with
  | add => rw [onInts, exact, Int64.ofInt_add, Int64.ofInt_toInt, Int64.ofInt_toInt]
  | sub => rw [onInts, exact, Int64.ofInt_sub, Int64.ofInt_toInt, Int64.ofInt_toInt]
  | mul => rw [onInts, exact, Int64.ofInt_mul, Int64.ofInt_toInt, Int64.ofInt_toInt]
  | div =>
    by_cases hb : b = 0
    · rw [onInts, exact, if_pos hb, if_pos ((toInt_eq_zero_iff b).2 hb)]
      rfl
    · rw [onInts, exact, if_neg hb, if_neg (hb ∘ (toInt_eq_zero_iff b).1), ofInt_tdiv]
  | mod =>
    by_cases hb : b = 0
    · rw [onInts, exact, if_pos hb, if_pos ((toInt_eq_zero_iff b).2 hb)]
      rfl
    · rw [onInts, exact, if_neg hb, if_neg (hb ∘ (toInt_eq_zero_iff b).1), ofInt_tmod]
  | pow =>
    have hlt : b < 0 ↔ b.toInt < 0 := Int64.lt_iff_toInt_lt
    by_cases hb : b < 0
    · rw [onInts, exact, if_pos hb, if_pos (hlt.1 hb)]
      rfl
    · rw [onInts, exact, if_neg hb, if_neg (hb ∘ hlt.2), intPower_eq]
  | unknown => rfl

end OnePass
