import OnePass.Proofs.Machine.Arithmetic
import OnePass.Proofs.X86.Computation

/-!
# Division and powers on x86-64

The guarded division never traps: a zero divisor yields zero, and minus one is divided by without
the instruction. Powers are computed by repeated squaring; each round keeps the product of what is
collected and what is left.
-/

set_option autoImplicit false

namespace OnePass.X86

variable {spoiled : Gp → Bool} {world : World Machine} {base : UInt64} {code : Array UInt8}
  {start stop : Nat} {m : Machine}

/-- The double word that the sign of a number and the number make up is the number. -/
theorem dividend_eq (a : UInt64) :
    (if a.toInt64 < 0 then (-1 : UInt64) else 0).toInt64.toInt * 0x10000000000000000 + a.toNat =
      a.toInt64.toInt := by
  have h1 : (-1 : UInt64).toInt64.toInt = -1 := rfl
  have h0 : (0 : UInt64).toInt64.toInt = 0 := rfl
  rw [toInt_toInt64 a]
  by_cases h : a.toInt64 < 0
  · rw [if_pos h, h1, if_neg (Nat.not_lt.2 ((toInt64_neg_iff a).1 h))]
    omega
  · rw [if_neg h, h0, if_pos (Nat.lt_of_not_le fun hc => h ((toInt64_neg_iff a).2 hc))]
    omega

/-- Quotients fit, but for the least integer divided by minus one. -/
theorem tdiv_fits {a b : Int} (hlo : -0x8000000000000000 ≤ a) (hhi : a < 0x8000000000000000)
    (h0 : b ≠ 0) (h1 : b ≠ -1) :
    -0x8000000000000000 ≤ a.tdiv b ∧ a.tdiv b < 0x8000000000000000 := by
  have habs := Int.natAbs_tdiv_le_natAbs a b
  rcases Int.lt_or_le a 0 with ha | ha
  · rcases Int.lt_or_le 0 b with hb | hb
    · have hq := Int.tdiv_nonneg (show 0 ≤ -a by omega) (Int.le_of_lt hb)
      rw [Int.neg_tdiv] at hq
      omega
    · have hb2 : 1 < b.natAbs := by omega
      have hlt : (a.tdiv b).natAbs < a.natAbs := by
        rw [Int.natAbs_tdiv]
        exact Nat.div_lt_self (by omega) hb2
      omega
  · omega

theorem divide?_eq (a b : UInt64) (h0 : b ≠ 0) (h1 : b ≠ -1) :
    divide? (if a.toInt64 < 0 then -1 else 0) a b =
      some ((a.toInt64 / b.toInt64).toUInt64, (a.toInt64 % b.toInt64).toUInt64) := by
  have ha : Int64.minValue.toInt ≤ a.toInt64.toInt := Int64.le_toInt a.toInt64
  have ha' : a.toInt64.toInt ≤ Int64.maxValue.toInt := Int.le_sub_one_of_lt a.toInt64.toInt_lt
  have hb : Int64.minValue.toInt ≤ b.toInt64.toInt := Int64.le_toInt b.toInt64
  have hb' : b.toInt64.toInt ≤ Int64.maxValue.toInt := Int.le_sub_one_of_lt b.toInt64.toInt_lt
  have hb0 : b.toInt64.toInt ≠ 0 := fun h =>
    h0 (congrArg Int64.toUInt64 (Int64.toInt_inj.1 (h.trans (show 0 = (0 : Int64).toInt from rfl))))
  have hb1 : b.toInt64.toInt ≠ -1 := fun h =>
    h1 (congrArg Int64.toUInt64
      (Int64.toInt_inj.1 (h.trans (show -1 = (-1 : Int64).toInt from rfl))))
  have hfit := tdiv_fits (Int64.le_toInt a.toInt64) a.toInt64.toInt_lt hb0 hb1
  simp only [divide?, dividend_eq]
  rw [if_pos ⟨hb0, hfit⟩, Int64.ofInt_tdiv ha ha' hb hb', Int64.ofInt_tmod ha ha' hb hb',
    Int64.ofInt_toInt, Int64.ofInt_toInt]

@[simp] theorem bitwiseFlags_zero (v : UInt64) : (bitwiseFlags v).zero = decide (v = 0) := rfl

@[simp] theorem bitwiseFlags_sign (v : UInt64) :
    (bitwiseFlags v).sign = decide (v.toInt64 < 0) := rfl

theorem compareFlags_zero (a b : UInt64) : (compareFlags a b).zero = decide (a = b) := by
  simp only [compareFlags, UInt64.sub_eq_iff_eq_add, UInt64.zero_add]

theorem execute_idiv {s : Machine} {src : Gp} {a b : UInt64} (ha : s.get .rax = a)
    (hd : s.get .rdx = if a.toInt64 < 0 then -1 else 0) (hb : s.get src = b) (h0 : b ≠ 0)
    (h1 : b ≠ -1) :
    execute world base s (.idiv src) =
      .running ((s.set .rax (a.toInt64 / b.toInt64).toUInt64).set .rdx
        (a.toInt64 % b.toInt64).toUInt64).clobberFlags := by
  simp only [execute, ha, hd, hb, divide?_eq a b h0 h1]

/-- The division code leaves the quotient or the remainder in its register. -/
theorem division_computes {op : Operator} (hop : op = .div ∨ op = .mod) {src : Gp}
    (hax : spoiled .rax = true) (hdx : spoiled .rdx = true) (hd : src ≠ .rdx)
    (p : Point spoiled code start stop m m (divisionCode op src)) :
    Computes spoiled world base code start stop m (fun m' => m'.get .rax =
      (op.onInts (m.get .rax).toInt64 (m.get src).toInt64).toUInt64) m := by
  have hone : (1 : Int64).toUInt64 = 1 := rfl
  refine p.plain trivial trivial rfl rfl fun p => ?_
  by_cases h0 : m.get src = 0
  · refine p.leap rfl rfl (by rcases hop with rfl | rfl <;> simp)
      (by simp [taken?, jz, h0]) fun p => ?_
    refine p.plain trivial hax rfl rfl fun p => p.finish ?_
    rcases hop with rfl | rfl <;> simp [Operator.onInts, h0] <;> rfl
  refine p.fall rfl (by simp [taken?, jz, h0]) fun p => ?_
  refine p.plain trivial trivial rfl rfl fun p => ?_
  have hz : (m.get src).toInt64 ≠ 0 := fun h => h0 (congrArg Int64.toUInt64 h)
  by_cases h1 : m.get src = -1
  · have hmin : (m.get src).toInt64 = -1 := congrArg UInt64.toInt64 h1
    rcases hop with rfl | rfl
    · refine p.leap rfl rfl (by simp) (by simp [taken?, jz, compareFlags_zero, h1, hone])
        fun p => ?_
      refine p.plain trivial hax rfl rfl fun p => ?_
      refine p.leap rfl rfl (by simp) rfl fun p => p.finish ?_
      simp [Operator.onInts, hmin, div_neg_one]
    · refine p.leap rfl rfl (by simp) (by simp [taken?, jz, compareFlags_zero, h1, hone])
        fun p => ?_
      refine p.plain trivial hax rfl rfl fun p => ?_
      refine p.leap rfl rfl (by simp) rfl fun p => p.finish ?_
      simp [Operator.onInts, hmin, mod_neg_one]
      rfl
  · refine p.fall rfl (by simp [taken?, jz, compareFlags_zero, h1, hone]) fun p => ?_
    rcases hop with rfl | rfl
    · refine p.plain trivial hdx rfl rfl fun p => ?_
      refine p.plain trivial ⟨hax, hdx⟩ (execute_idiv rfl ?_ ?_ h0 h1) rfl fun p => ?_
      · simp +decide
      · simp [Ne.symm hd]
      refine p.leap rfl rfl (by simp) rfl fun p => p.finish ?_
      simp +decide [Operator.onInts, hz]
    · refine p.plain trivial hdx rfl rfl fun p => ?_
      refine p.plain trivial ⟨hax, hdx⟩ (execute_idiv rfl ?_ ?_ h0 h1) rfl fun p => ?_
      · simp +decide
      · simp [Ne.symm hd]
      refine p.plain trivial hax rfl rfl fun p => ?_
      refine p.leap rfl rfl (by simp) rfl fun p => p.finish ?_
      simp +decide [Operator.onInts, hz]

/-- The rounds collect the power of what is left: by induction on the exponent, which each round
halves. -/
theorem rounds_compute {dst src : Gp} (hd : spoiled dst = true) (hs : spoiled src = true)
    (hx : spoiled .rdx = true) (hdx : dst ≠ .rdx) (hsx : src ≠ .rdx) (hne : dst ≠ src) {s : Machine}
    (hsmall : (s.get src).toNat < 0x8000000000000000)
    (p : Point spoiled code start stop m s
      (roundCode dst src ++ backward jmp (roundCode dst src) :: [.xor32 .rdx, .mov dst .rdx])) :
    Computes spoiled world base code start stop m (fun m' => m'.get dst =
      ((s.get .rdx).toInt64 *
        intPower (s.get dst).toInt64 (s.get src).toNat).toUInt64) s := by
  -- On the exponent, which a round halves. What is in `rdx` times the power to come stays the same.
  generalize he : (s.get src).toNat = e at hsmall
  induction e using Nat.strongRecOn generalizing s with
  | ind e ih =>
  have p₀ := p
  refine p.plain trivial trivial rfl rfl fun p => ?_
  by_cases h0 : s.get src = 0
  · -- The exponent is used up: the jump passes over the rest of the round and the zero.
    have he0 : e = 0 := by simpa [h0] using he.symm
    refine p.skip (bitCode dst src ++ [backward jmp (roundCode dst src), .xor32 .rdx]) rfl
      (by simp [length_encode_jump, backward]) rfl (by simp [bitCode])
      (by simp [taken?, jz, h0]) fun p => ?_
    refine p.plain trivial hd rfl rfl fun p => p.finish ?_
    simp [he0, intPower]
  · -- The second half of the round, whichever way the bit went.
    have half (t : Machine) (hts : t.get src = s.get src) (htd : t.get dst = s.get dst)
        (htx : (t.get .rdx).toInt64 =
          (s.get .rdx).toInt64 * if e % 2 = 0 then 1 else (s.get dst).toInt64)
        (p : Point spoiled code start stop m t (.imul dst dst :: .sarOne src ::
          backward jmp (roundCode dst src) :: [.xor32 .rdx, .mov dst .rdx])) :
        Computes spoiled world base code start stop m (fun m' => m'.get dst =
          ((s.get .rdx).toInt64 * intPower (s.get dst).toInt64 e).toUInt64) t := by
      have hpos : 0 < e := Nat.pos_of_ne_zero fun h => h0 (UInt64.toNat_inj.1 (by rw [he, h]; rfl))
      refine p.plain trivial hd rfl rfl fun p => ?_
      refine p.plain trivial hs rfl rfl fun p => ?_
      refine p₀.back p rfl (by simp [roundCode, bitCode]) rfl fun p => ?_
      have hhalf := toNat_shift (w := s.get src) (by omega)
      have hk := ih (e / 2) (by omega) p (by simp [hne, hts, hhalf, he]) (by omega)
      rw [intPower_round, ← Int64.mul_assoc, ← htx]
      simpa [hne, Ne.symm hne, hdx, hsx, Ne.symm hsx, hts, htd] using hk
    refine p.fall rfl (by simp [taken?, jz, h0]) fun p => ?_
    refine p.plain trivial trivial rfl rfl fun p => ?_
    have hbit := and_one_eq_zero_iff (s.get src)
    have hone : (1 : Int64).toUInt64 = 1 := rfl
    rw [he] at hbit
    by_cases hb : e % 2 = 0
    · refine p.leap rfl rfl (by simp) (by simp [taken?, jz, hone, hbit, hb]) fun p => ?_
      exact half _ (by simp) (by simp) (by simp [hb]) p
    · refine p.fall rfl (by simp [taken?, jz, hone, hbit, hb]) fun p => ?_
      refine p.plain trivial hx rfl rfl fun p => ?_
      exact half _ (by simp [Ne.symm hsx]) (by simp [Ne.symm hdx]) (by simp [hb]) p

/-- The power code leaves the power in its register. -/
theorem power_computes {dst src : Gp} (hd : spoiled dst = true) (hs : spoiled src = true)
    (hx : spoiled .rdx = true) (hdx : dst ≠ .rdx) (hsx : src ≠ .rdx) (hne : dst ≠ src)
    (p : Point spoiled code start stop m m (powerCode dst src)) :
    Computes spoiled world base code start stop m (fun m' => m'.get dst =
      (Operator.pow.onInts (m.get dst).toInt64 (m.get src).toInt64).toUInt64) m := by
  refine p.plain trivial hx rfl rfl fun p => ?_
  refine p.plain trivial trivial rfl rfl fun p => ?_
  by_cases hneg : (m.get src).toInt64 < 0
  · refine p.leap rfl rfl (by simp [roundCode, bitCode]) (by simp [taken?, js, Ne.symm hsx, hneg])
      fun p => ?_
    refine p.plain trivial hx rfl rfl fun p => ?_
    refine p.plain trivial hd rfl rfl fun p => p.finish ?_
    simp [Operator.onInts, hneg]
    rfl
  · have hsmall : (m.get src).toNat < 0x8000000000000000 :=
      Nat.lt_of_not_le fun h => hneg ((toInt64_neg_iff _).2 h)
    refine p.fall rfl (by simp [taken?, js, Ne.symm hsx, hneg]) fun p => ?_
    have hk : Computes spoiled world base code start stop m _ _ :=
      rounds_compute hd hs hx hdx hsx hne (by simpa [Ne.symm hsx] using hsmall) p
    have hn : (m.get src).toInt64.toInt.toNat = (m.get src).toNat := by
      rw [toInt_of_small hsmall, Int.toNat_natCast]
    have hone : (1 : UInt32).toUInt64.toInt64 = 1 := rfl
    simpa [Operator.onInts, hneg, hn, Ne.symm hsx, Ne.symm hdx, hone] using hk

end OnePass.X86
