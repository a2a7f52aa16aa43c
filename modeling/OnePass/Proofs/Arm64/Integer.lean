import OnePass.Proofs.Arm64.Computation
import OnePass.Proofs.Machine.Arithmetic

/-!
# Integers on ARM64

What the instructions for wide moves, remainders and powers compute.
-/

set_option autoImplicit false

namespace OnePass.Arm64

variable {spoiled : Gp → Bool} {world : World Machine} {base : UInt64} {code : Array UInt32}
  {start stop : Nat} {m : Machine}

theorem half_cases {half : UInt32} (h : half < 4) : half = 0 ∨ half = 1 ∨ half = 2 ∨ half = 3 := by
  have hl : half.toNat < 4 := h
  simp only [← UInt32.toNat_inj, UInt32.reduceToNat]
  omega

/-- A number that ends below a half word is not changed by clearing it. -/
theorem clear_half {u : UInt64} {half : UInt32} (h : half < 4)
    (hu : u.toNat < Nat.pow 2 (16 * half.toNat)) :
    u &&& ~~~((0xffff : UInt64) <<< (16 * half).toUInt64) = u := by
  have hlow : u &&& (UInt64.ofNat (Nat.pow 2 (16 * half.toNat) - 1)) = u := by
    apply UInt64.toNat_inj.1
    rw [UInt64.toNat_and]
    obtain rfl | rfl | rfl | rfl := half_cases h <;>
      exact (Nat.and_two_pow_sub_one_eq_mod _ _).trans (Nat.mod_eq_of_lt hu)
  have hmask : UInt64.ofNat (Nat.pow 2 (16 * half.toNat) - 1) &&&
      ~~~((0xffff : UInt64) <<< (16 * half).toUInt64) =
      UInt64.ofNat (Nat.pow 2 (16 * half.toNat) - 1) := by
    obtain rfl | rfl | rfl | rfl := half_cases h <;> decide
  calc u &&& ~~~((0xffff : UInt64) <<< (16 * half).toUInt64)
      = u &&& UInt64.ofNat (Nat.pow 2 (16 * half.toNat) - 1) &&&
          ~~~((0xffff : UInt64) <<< (16 * half).toUInt64) := by rw [hlow]
    _ = u := by rw [UInt64.and_assoc, hmask, hlow]

theorem toNat_shiftCount {half : UInt32} (h : half < 4) :
    (16 * half).toUInt64.toNat = 16 * half.toNat := by
  have hl : half.toNat < 4 := h
  rw [UInt32.toNat_toUInt64, UInt32.toNat_mul]
  simp only [UInt32.reduceToNat]
  omega

theorem toNat_halfword (v : UInt64) {half : UInt32} (h : half < 4) :
    (halfword v half).toNat = v.toNat / Nat.pow 2 (16 * half.toNat) % 65536 := by
  have hl : half.toNat < 4 := h
  rw [halfword, UInt64.toNat_toUInt16, UInt64.toNat_shiftRight, toNat_shiftCount h,
    Nat.mod_eq_of_lt (show 16 * half.toNat < 64 by omega), Nat.shiftRight_eq_div_pow]
  rfl

theorem toNat_insertHalf {u : UInt64} {imm : UInt16} {half : UInt32} (h : half < 4)
    (hu : u.toNat < Nat.pow 2 (16 * half.toNat)) :
    (insertHalf u imm half).toNat = imm.toNat * Nat.pow 2 (16 * half.toNat) + u.toNat := by
  have hl : half.toNat < 4 := h
  have himm := imm.toNat_lt
  have hlt : imm.toNat <<< (16 * half.toNat) < 2 ^ 64 := by
    rw [Nat.shiftLeft_eq]
    calc imm.toNat * 2 ^ (16 * half.toNat)
        < 2 ^ 16 * 2 ^ (16 * half.toNat) := Nat.mul_lt_mul_of_pos_right himm
          (Nat.pow_pos (by decide))
      _ = 2 ^ (16 + 16 * half.toNat) := (Nat.pow_add _ _ _).symm
      _ ≤ 2 ^ 64 := Nat.pow_le_pow_right (by decide) (by omega)
  rw [insertHalf, clear_half h hu, UInt64.toNat_or, UInt64.toNat_shiftLeft, toNat_shiftCount h,
    Nat.mod_eq_of_lt (show 16 * half.toNat < 64 by omega), UInt16.toNat_toUInt64,
    Nat.mod_eq_of_lt hlt, Nat.or_comm, ← Nat.shiftLeft_add_eq_or_of_lt hu, Nat.shiftLeft_eq]
  rfl

def lowHalves (v : UInt64) (n : Nat) : Nat := v.toNat % Nat.pow 2 (16 * n)

theorem lowHalves_succ (v : UInt64) (n : Nat) :
    lowHalves v (n + 1) =
      v.toNat / Nat.pow 2 (16 * n) % 65536 * Nat.pow 2 (16 * n) + lowHalves v n := by
  have hpow : Nat.pow 2 (16 * (n + 1)) = Nat.pow 2 (16 * n) * 65536 := Nat.pow_add 2 (16 * n) 16
  rw [lowHalves, lowHalves, hpow, Nat.mod_mul, Nat.add_comm,
    Nat.mul_comm (v.toNat / Nat.pow 2 (16 * n) % 65536)]

theorem insertHalf_low {u v : UInt64} {half : UInt32} (h : half < 4)
    (hu : u.toNat = lowHalves v half.toNat) :
    (insertHalf u (halfword v half) half).toNat = lowHalves v (half.toNat + 1) := by
  have hlt : u.toNat < Nat.pow 2 (16 * half.toNat) := by
    rw [hu]
    exact Nat.mod_lt _ (Nat.pow_pos (by decide))
  rw [toNat_insertHalf h hlt, toNat_halfword v h, hu, lowHalves_succ]

/-- A half word that is zero need not be put in. -/
theorem lowHalves_skip {v : UInt64} {half : UInt32} (h : half < 4) (hz : halfword v half = 0) :
    lowHalves v (half.toNat + 1) = lowHalves v half.toNat := by
  have h0 := congrArg UInt16.toNat hz
  rw [toNat_halfword v h] at h0
  rw [lowHalves_succ, h0]
  simp

theorem eq_of_lowHalves {u v : UInt64} (h : u.toNat = lowHalves v 4) : u = v :=
  UInt64.toNat_inj.1 (h.trans (Nat.mod_eq_of_lt v.toNat_lt))

theorem set_moveTo (m : Machine) (r : Gp) (v : UInt64) (n : Nat) :
    (m.moveTo n).set r v = (m.set r v).moveTo n := by
  unfold Machine.set
  split <;> rfl

def halfMove (r : Gp) (v : UInt64) (half : UInt32) : List Resolved :=
  if halfword v half ≠ 0 then [.movk r (halfword v half) half] else []

theorem wideCode_eq (r : Gp) (v : UInt64) : wideCode r v =
    .movz r (halfword v 0) 0 :: (halfMove r v 1 ++ (halfMove r v 2 ++ halfMove r v 3)) := by
  unfold wideCode halfMove
  by_cases h1 : halfword v 1 = 0 <;> by_cases h2 : halfword v 2 = 0 <;>
    by_cases h3 : halfword v 3 = 0 <;> simp [h1, h2, h3]

section Wide

variable {r : Gp} (hr : spoiled r = true) (hlt : r.index.val < 31) {s : Machine}
  {rest : List Resolved} {v : UInt64} {result : Machine → Prop}

include hr hlt

theorem halfMove_computes {half : UInt32} (hh : half < 4) {u : UInt64} {q : Nat}
    (hu : u.toNat = lowHalves v half.toNat)
    (p : Point spoiled code start stop m ((s.set r u).moveTo q) (halfMove r v half ++ rest))
    (k : ∀ (u : UInt64) (q : Nat), u.toNat = lowHalves v (half.toNat + 1) →
      Point spoiled code start stop m ((s.set r u).moveTo q) rest →
      Computes spoiled world base code start stop m result ((s.set r u).moveTo q)) :
    Computes spoiled world base code start stop m result ((s.set r u).moveTo q) := by
  unfold halfMove at p
  split at p
  case isTrue hz =>
    have hx : execute world base ((s.set r u).moveTo q) (.movk r (halfword v half) half) =
        next ((s.set r (insertHalf u (halfword v half) half)).moveTo q) := by
      simp [execute, set_moveTo, Machine.set_set, hlt]
    exact p.plain hh hr hx rfl fun p => k _ _ (insertHalf_low hh hu) p
  case isFalse hz =>
    simp only [ne_eq, Decidable.not_not] at hz
    exact k u q (hu.trans (lowHalves_skip hh hz).symm) p

theorem wide_computes (rest : List Resolved)
    (p : Point spoiled code start stop m s (wideCode r v ++ rest))
    (k : ∀ q, Point spoiled code start stop m ((s.set r v).moveTo q) rest →
      Computes spoiled world base code start stop m result ((s.set r v).moveTo q)) :
    Computes spoiled world base code start stop m result s := by
  have hlow : (insertHalf 0 (halfword v 0) 0).toNat = lowHalves v 1 :=
    insertHalf_low (show (0 : UInt32) < 4 by decide) (Nat.mod_one _).symm
  simp only [wideCode_eq, List.cons_append, List.append_assoc] at p
  refine p.plain (show (0 : UInt32) < 4 by decide) hr rfl (by simp) fun p₁ => ?_
  refine halfMove_computes hr hlt (by decide) hlow p₁ fun u₂ q₂ h₂ p₂ => ?_
  refine halfMove_computes hr hlt (by decide) h₂ p₂ fun u₃ q₃ h₃ p₃ => ?_
  refine halfMove_computes hr hlt (by decide) h₃ p₃ fun u q hu p₄ => ?_
  rw [eq_of_lowHalves hu] at p₄ ⊢
  exact k q p₄

end Wide

theorem quotient_eq (a b : UInt64) :
    IntOp.sdiv.apply a b = (Operator.div.onInts a.toInt64 b.toInt64).toUInt64 := by
  by_cases h : b = 0
  · subst h
    rfl
  · have hz : b.toInt64 ≠ 0 := fun he => h (congrArg Int64.toUInt64 he)
    simp [IntOp.apply, quotient, Operator.onInts, h, hz]

theorem holds_equal (v : UInt64) : holds equal (zeroFlags v) = decide (v = 0) := rfl

theorem holds_less (v : UInt64) : holds less (zeroFlags v) = decide (v.toInt64 < 0) := by
  simp +decide [holds, less, zeroFlags]

theorem execute_cmpZero {r : Gp} (hr : r.index.val < 31) (s : Machine) :
    execute world base s (.cmpZero r) = next (s.withFlags (zeroFlags (s.get r))) := by
  have hne : r.isLast = false := by
    simp only [Gp.isLast, decide_eq_false_iff_not]
    omega
  simp [execute, Machine.addressIn, hne, Machine.withFlags]

/-- What the remainder code leaves in `d` when it begins with `a` there and `b` in `s`. The quotient
is already in the scratch register when the operands are read again. -/
def remainderLeft (d s : Gp) (a b : UInt64) : UInt64 :=
  let q := quotient a b
  let b' := if s = ⟨16⟩ then q else b
  let v := (if d = ⟨16⟩ then q else a) - q * b'
  if (if s = d then v else b') = 0 then 0 else v

theorem modulo_leaves {d s : Gp} (hd : spoiled d = true) (hx : spoiled ⟨16⟩ = true)
    (hd' : d.index.val < 31) (hs' : s.index.val < 31)
    (p : Point spoiled code start stop m m (moduloCode d s)) :
    Computes spoiled world base code start stop m
      (fun m' => m'.get d = remainderLeft d s (m.get d) (m.get s)) m := by
  have h16 : (16 : Fin 32).val < 31 := by decide
  refine p.plain trivial hx rfl (by simp) fun p => ?_
  refine p.plain trivial hd rfl (by simp) fun p => ?_
  refine p.plain trivial trivial (execute_cmpZero hs' _) rfl fun p => ?_
  refine p.plain (show equal < 16 by decide) hd rfl (by simp) fun p => p.finish ?_
  simp only [Machine.get_moveTo, Machine.get_set, Machine.get_withFlags, Machine.flags_moveTo,
    Machine.flags_withFlags, Machine.get_zero, holds_equal, decide_eq_true_eq, IntOp.apply,
    remainderLeft, hd', h16, and_true, if_true]
  simp only [eq_comm (a := (⟨16⟩ : Gp)), eq_comm (a := d) (b := s)]

theorem quotient_self (a : UInt64) : quotient a a = if a = 0 then 0 else 1 := by
  by_cases h : a = 0
  · simp [quotient, h]
  · have hz : a.toInt64 ≠ 0 := fun h' => h (congrArg Int64.toUInt64 h')
    have hone : (1 : Int64).toUInt64 = 1 := rfl
    simp [quotient, h, Int64.div_self, hz, hone]

/-- The remainder is exact unless just one of the operands is in the scratch register. -/
theorem remainderLeft_exact {d s : Gp} {a b : UInt64} (h : d = ⟨16⟩ ↔ s = ⟨16⟩)
    (hsame : d = s → a = b) :
    remainderLeft d s a b = (Operator.mod.onInts a.toInt64 b.toInt64).toUInt64 := by
  have hzero : (0 : Int64).toUInt64 = 0 := rfl
  by_cases hds : d = s
  · obtain rfl := hsame hds
    subst hds
    have hm : Operator.mod.onInts a.toInt64 a.toInt64 = 0 := by
      simp only [Operator.onInts, mod_eq_sub, Int64.div_self]
      split <;> simp
    rw [hm, remainderLeft, quotient_self, hzero]
    by_cases h0 : a = 0 <;> by_cases hx : d = ⟨16⟩ <;> simp [h0, hx]
  · have hd : d ≠ ⟨16⟩ := fun hd => hds (hd.trans (h.1 hd).symm)
    have hs : s ≠ ⟨16⟩ := fun hs => hd (h.2 hs)
    by_cases h0 : b = 0
    · simp [remainderLeft, Operator.onInts, hs, Ne.symm hds, h0, hzero]
    · have hz : b.toInt64 ≠ 0 := fun h' => h0 (congrArg Int64.toUInt64 h')
      simp [remainderLeft, quotient, Operator.onInts, hd, hs, Ne.symm hds, h0, hz, mod_eq_sub]

theorem modulo_computes {d s : Gp} (hd : spoiled d = true) (hx : spoiled ⟨16⟩ = true)
    (hd' : d.index.val < 31) (hs' : s.index.val < 31) (h : d = ⟨16⟩ ↔ s = ⟨16⟩)
    (p : Point spoiled code start stop m m (moduloCode d s)) :
    Computes spoiled world base code start stop m (fun m' => m'.get d =
      (Operator.mod.onInts (m.get d).toInt64 (m.get s).toInt64).toUInt64) m := by
  rw [← remainderLeft_exact h fun hs => congrArg m.get hs]
  exact modulo_leaves hd hx hd' hs' p

theorem execute_taken {i : Resolved} {s : Machine} {c : Bool} {d : Int}
    (hx : execute world base s i = branchIf s c d) (hc : c = true) :
    execute world base s i = branch s d := by
  rw [hx, hc]
  rfl

theorem execute_passed {i : Resolved} {s : Machine} {c : Bool} {d : Int}
    (hx : execute world base s i = branchIf s c d) (hc : c = false) :
    execute world base s i = next s := by
  rw [hx, hc]
  rfl

/-- The rounds collect the power of what is left: by induction on the exponent, which each round
halves. -/
theorem rounds_compute {d e : Gp} (hd : spoiled d = true) (he : spoiled e = true)
    (hx : spoiled ⟨17⟩ = true) (hd' : d.index.val < 31) (he' : e.index.val < 31)
    (hdx : d ≠ ⟨17⟩) (hex : e ≠ ⟨17⟩) (hne : d ≠ e) {s : Machine}
    (hsmall : (s.get e).toNat < 0x8000000000000000)
    (p : Point spoiled code start stop m s (roundCode d e ++ [Instr.movz ⟨17⟩ 0 0, .mov d ⟨17⟩])) :
    Computes spoiled world base code start stop m (fun m' => m'.get d =
      ((s.get ⟨17⟩).toInt64 * intPower (s.get d).toInt64 (s.get e).toNat).toUInt64) s := by
  have h7 : Reachable 7 19 := by decide
  have h2 : Reachable 2 14 := by decide
  have h5 : Reachable (-5) 26 := by decide
  generalize hn : (s.get e).toNat = n at hsmall
  induction n using Nat.strongRecOn generalizing s with
  | ind n ih =>
  have p₀ := p
  by_cases h0 : s.get e = 0
  · -- The exponent is used up: the branch passes over the rest of the round and the zero.
    have hn0 : n = 0 := by simpa [h0] using hn.symm
    refine p.leap [.tbzBit0 e 2, .int .mul ⟨17⟩ ⟨17⟩ d, .int .mul d d d, .asrOne e e, .b (-5),
      .movz ⟨17⟩ 0 0] h7 trivial (execute_taken rfl (by simp [h0])) fun p => ?_
    refine p.plain trivial hd rfl (by simp) fun p => p.finish ?_
    simp [hn0, intPower, hd']
  · -- The second half of the round, whichever way the bit went.
    have half (t : Machine) (hte : t.get e = s.get e) (htd : t.get d = s.get d)
        (htx : (t.get ⟨17⟩).toInt64 =
          (s.get ⟨17⟩).toInt64 * if n % 2 = 0 then 1 else (s.get d).toInt64)
        (p : Point spoiled code start stop m t (.int .mul d d d :: .asrOne e e :: .b (-5) ::
          [.movz ⟨17⟩ 0 0, .mov d ⟨17⟩])) :
        Computes spoiled world base code start stop m (fun m' => m'.get d =
          ((s.get ⟨17⟩).toInt64 * intPower (s.get d).toInt64 n).toUInt64) t := by
      have hpos : 0 < n := Nat.pos_of_ne_zero fun h => h0 (UInt64.toNat_inj.1 (by rw [hn, h]; rfl))
      refine p.plain trivial hd rfl (by simp) fun p => ?_
      refine p.plain trivial he rfl (by simp) fun p => ?_
      refine p₀.back [.cbz e 7, .tbzBit0 e 2, .int .mul ⟨17⟩ ⟨17⟩ d, .int .mul d d d,
        .asrOne e e] p h5 trivial rfl fun p => ?_
      have hhalf := toNat_shift (w := s.get e) (by omega)
      have hk := ih (n / 2) (by omega) p (by simp [hne, hte, hhalf, hn, he']) (by omega)
      rw [intPower_round, ← Int64.mul_assoc, ← htx]
      simpa [hne, Ne.symm hne, hdx, hex, Ne.symm hex, hte, htd, hd', he', IntOp.apply] using hk
    refine p.plain h7 trivial (execute_passed rfl (by simp [h0])) rfl fun p => ?_
    have hbit := and_one_eq_zero_iff (s.get e)
    rw [hn] at hbit
    by_cases hb : n % 2 = 0
    · refine p.leap [.int .mul ⟨17⟩ ⟨17⟩ d] h2 trivial
        (execute_taken rfl (by simp [hbit, hb])) fun p => ?_
      exact half _ (by simp) (by simp) (by simp [hb]) p
    · refine p.plain h2 trivial (execute_passed rfl (by simp [hbit, hb])) rfl fun p => ?_
      refine p.plain trivial hx rfl (by simp) fun p => ?_
      exact half _ (by simp [Ne.symm hex]) (by simp [Ne.symm hdx])
        (by simp +decide [hb, IntOp.apply]) p

theorem power_computes {d e : Gp} (hd : spoiled d = true) (he : spoiled e = true)
    (hx : spoiled ⟨17⟩ = true) (hd' : d.index.val < 31) (he' : e.index.val < 31)
    (hdx : d ≠ ⟨17⟩) (hex : e ≠ ⟨17⟩) (hne : d ≠ e)
    (p : Point spoiled code start stop m m (powerCode d e)) :
    Computes spoiled world base code start stop m (fun m' => m'.get d =
      (Operator.pow.onInts (m.get d).toInt64 (m.get e).toInt64).toUInt64) m := by
  have hb : Instr.Encodable (.bCond less 7) := ⟨by decide, by decide⟩
  refine p.plain (show (0 : UInt32) < 4 by decide) hx rfl (by simp) fun p => ?_
  refine p.plain trivial trivial (execute_cmpZero he' _) rfl fun p => ?_
  by_cases hneg : (m.get e).toInt64 < 0
  · refine p.leap (roundCode d e) hb trivial
      (execute_taken rfl (by simp [holds_less, Ne.symm hex, hneg])) fun p => ?_
    refine p.plain (show (0 : UInt32) < 4 by decide) hx rfl (by simp) fun p => ?_
    refine p.plain trivial hd rfl (by simp) fun p => p.finish ?_
    simp [Operator.onInts, hneg, hd']
    rfl
  · have hsmall : (m.get e).toNat < 0x8000000000000000 :=
      Nat.lt_of_not_le fun h => hneg ((toInt64_neg_iff _).2 h)
    refine p.plain hb trivial (execute_passed rfl (by simp [holds_less, Ne.symm hex, hneg])) rfl
      fun p => ?_
    have hk : Computes spoiled world base code start stop m _ _ :=
      rounds_compute hd he hx hd' he' hdx hex hne (by simpa [Ne.symm hex] using hsmall) p
    have hn : (m.get e).toInt64.toInt.toNat = (m.get e).toNat := by
      rw [toInt_of_small hsmall, Int.toNat_natCast]
    have hone : (insertHalf 0 1 0).toInt64 = 1 := by decide
    simpa +decide [Operator.onInts, hneg, hn, Ne.symm hex, Ne.symm hdx, hone] using hk

end OnePass.Arm64
