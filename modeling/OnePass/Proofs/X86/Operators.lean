import OnePass.Arm64.Machine
import OnePass.Proofs.Binary64.Value
import OnePass.Proofs.X86.Integer
import OnePass.Proofs.X86.Rejection
import OnePass.Proofs.X86.Saturation

/-!
# Operators and conversions on x86-64

What the code of an operator does wherever it stands and whatever the registers hold: it ends behind
itself with the exact result, wrapped around, no division instruction traps, and only the operands
and `rdx` change. The conversion of doubles saturates.
-/

set_option autoImplicit false

namespace OnePass.X86

variable {world : World Machine} {base : UInt64} {code : Array UInt8} {m : Machine}

/-- Running the code from `m` on gets to `m'`, and on the way every division instruction finds a
quotient that fits. -/
def Arrives (world : World Machine) (base : UInt64) (code : Array UInt8) (m m' : Machine) : Prop :=
  ∃ n, run world base code n m = .running m' ∧
    ∀ k < n, ∀ t r, run world base code k m = .running t → fetch code t = some (.idiv r) →
      (divide? (t.get .rdx) (t.get .rax) (t.get r)).isSome

/-- A division instruction that the machine gets past has found a quotient. -/
theorem isSome_divide? {r : Gp} (hf : fetch code m = some (.idiv r))
    (hn : (successor (step world base code) m).isSome) :
    (divide? (m.get .rdx) (m.get .rax) (m.get r)).isSome := by
  obtain ⟨p, hs⟩ := step_of_fetch world base hf
  rw [successor, hs, execute] at hn
  cases hq : divide? (m.get .rdx) (m.get .rax) (m.get r) with
  | some q => rfl
  | none =>
    simp only [Machine.get_moveTo, hq] at hn
    cases hn

theorem arrives_of_computes {spoiled : Gp → Bool} {start stop : Nat} {result : Machine → Prop}
    (h : Computes spoiled world base code start stop m result m) :
    ∃ m', Arrives world base code m m' ∧ m'.position = stop ∧ Undisturbed spoiled m m' ∧
      result m' := by
  obtain ⟨n, m', hn, hp, hu, hr⟩ := h.reaches fun _ => id
  refine ⟨m', ⟨n, run_eq_running_iff.2 hn, fun k hk t r ht hf => ?_⟩, hp, hu, hr⟩
  exact isSome_divide? hf (isSome_next_of_iterate hn hk (run_eq_running_iff.1 ht))

theorem codeAt_between (before after : Bytes) (is : List Resolved) :
    CodeAt (before ++ encodeAll is ++ after).toArray before.length is :=
  ⟨after, by simp⟩

def Gp.touched (d s r : Gp) : Bool := r = d || r = s || r = .rdx

theorem touched_left (d s : Gp) : Gp.touched d s d = true := by simp [Gp.touched]

theorem touched_right (d s : Gp) : Gp.touched d s s = true := by simp [Gp.touched]

theorem touched_rdx (d s : Gp) : Gp.touched d s .rdx = true := by simp [Gp.touched]

variable {op : Operator} {dst src : Text} {d s : Gp} {is : List Resolved}

theorem intBinary_computes (hd : Gp.ofName? dst = some d) (hs : Gp.ofName? src = some s)
    (ho : lower? (.intBinary op dst src) = some is) (hc : CodeAt code m.position is) :
    Computes (Gp.touched d s) world base code m.position (m.position + codeSize is) m
      (fun m' => m'.get d = (op.onInts (m.get d).toInt64 (m.get s).toInt64).toUInt64) m := by
  have hrax : Gp.ofName? rax = some .rax := by decide
  have hrdx : Gp.ofName? rdx = some .rdx := by decide
  have p : Point (Gp.touched d s) code m.position _ m m is := Point.first hc
  cases op with
  | add | sub | mul =>
    simp only [lower?, single, Instr.resolve?, hd, hs] at ho
    cases ho
    exact p.plain trivial (touched_left d s) rfl rfl fun p => p.finish (by
      simp [Operator.onInts])
  | div | mod =>
    simp only [lower?] at ho
    split at ho
    case isTrue => cases ho
    case isFalse hn =>
      simp only [ne_eq, not_or, Decidable.not_not] at hn
      obtain rfl : d = .rax := Option.some.inj (hd.symm.trans (hn.1 ▸ hrax))
      have hne : s ≠ .rdx := fun h => hn.2.2 (Gp.ofName?_inj hs (h ▸ hrdx))
      rw [hs] at ho
      cases ho
      exact division_computes (by simp) (touched_left _ s) (touched_rdx _ s) hne p
  | pow =>
    simp only [lower?] at ho
    split at ho
    case isTrue => cases ho
    case isFalse hn =>
      simp only [not_or] at hn
      have hdx : d ≠ .rdx := fun h => hn.1 (Gp.ofName?_inj hd (h ▸ hrdx))
      have hsx : s ≠ .rdx := fun h => hn.2.1 (Gp.ofName?_inj hs (h ▸ hrdx))
      have hne : d ≠ s := fun h => hn.2.2 (Gp.ofName?_inj hd (h ▸ hs))
      simp only [hd, hs] at ho
      cases ho
      exact power_computes (touched_left d s) (touched_right d s) (touched_rdx d s) hdx hsx hne p
  | unknown => cases ho

/-- Accepted integer operators: the emitted code, wherever it stands, leaves the exact result
wrapped around to 64 bits, executes no division that traps, and changes its operands and `rdx` only.
-/
theorem integer_operators_exact {start : Buffer} {verbose : Bool} (hstart : start.Ready)
    (hd : Gp.ofName? dst = some d) (hs : Gp.ofName? src = some s)
    (hok : (perform { buffer := start, verbose } (.intBinary op dst src)).buffer.failure = none) :
    ∃ emitted : Bytes,
      (perform { buffer := start, verbose } (.intBinary op dst src)).buffer.bytes =
        start.bytes ++ emitted ∧
      ∀ (world : World Machine) (base : UInt64) (before after : Bytes) (m : Machine),
        m.position = before.length →
        ∃ m', Arrives world base (before ++ emitted ++ after).toArray m m' ∧
          m'.position = before.length + emitted.length ∧
          (m'.get d).toInt64 =
            Int64.ofInt (op.exact (m.get d).toInt64.toInt (m.get s).toInt64.toInt) ∧
          ∀ r : Gp, r ≠ d → r ≠ s → r ≠ .rdx → m'.get r = m.get r := by
  have hw := Written.begin start hstart #[] verbose
  obtain ⟨is, his⟩ := Option.isSome_iff_exists.1 (lowered_of_perform hw.usable hok)
  have hemit := perform_written hw his
  refine ⟨encodeAll is, (hemit.fits (hemit.failure_eq_none_iff.1 hok)).2,
    fun world base before after m hp => ?_⟩
  have hc : CodeAt (before ++ encodeAll is ++ after).toArray m.position is :=
    hp ▸ codeAt_between before after is
  obtain ⟨m', ha, hstop, hu, hr⟩ := arrives_of_computes (intBinary_computes hd hs his hc)
  refine ⟨m', ha, hp ▸ hstop, ?_, fun r h1 h2 h3 => hu.kept r (by simp [Gp.touched, h1, h2, h3])⟩
  rw [hr, ← Operator.onInts_eq]
  rfl

/-- The least integer divided by minus one, which the instruction itself cannot do. -/
theorem integer_operators_exact_least :
    ∃ w, w = perform { buffer := .create (utf8 "code") 64 0 } (.intBinary .div rax (utf8 "rcx")) ∧
      w.buffer.failure = none ∧
      ∀ (world : World Machine) (base : UInt64) (m : Machine), m.position = 0 →
        (m.get .rax).toInt64 = Int64.minValue → (m.get .rcx).toInt64 = -1 →
        ∃ m', Arrives world base w.buffer.bytes.toArray m m' ∧
          (m'.get .rax).toInt64 = Int64.minValue := by
  have hready : (Buffer.create (utf8 "code") 64 0).Ready := Buffer.ready_create _ _ (by decide)
  have hd : Gp.ofName? rax = some .rax := by decide
  have hs : Gp.ofName? (utf8 "rcx") = some .rcx := by decide
  have hok : (perform { buffer := .create (utf8 "code") 64 0 }
      (.intBinary .div rax (utf8 "rcx"))).buffer.failure = none := by decide +kernel
  have hempty : (Buffer.create (utf8 "code") 64 0).bytes = [] := rfl
  obtain ⟨emitted, hb, hrun⟩ := integer_operators_exact hready hd hs hok
  refine ⟨_, rfl, hok, fun world base m hp ha hc => ?_⟩
  obtain ⟨m', hm, -, hr, -⟩ := hrun world base [] [] m hp
  refine ⟨m', by simpa [hb, hempty] using hm, ?_⟩
  rw [hr, ha, hc]
  decide

/-- Conversion to an integer truncates and saturates by the number that the double denotes, just as
the conversion instruction of the other machine does. Of the general purpose registers it changes
its result only, of the SSE registers its scratch register only. -/
theorem float_conversion_saturates {start : Buffer} (hstart : start.Ready) (verbose : Bool)
    {reg freg : Text} {r : Gp} {x : Xmm} (hr : Gp.ofName? reg = some r)
    (hx : Xmm.ofName? freg = some x) (hne : x ≠ ⟨15⟩) :
    ∃ emitted : Bytes,
      ((perform { buffer := start, verbose } (.floatToInt reg freg)).buffer.failure = none ↔
        start.Fits emitted.length) ∧
      (start.Fits emitted.length →
        (perform { buffer := start, verbose } (.floatToInt reg freg)).buffer.bytes =
          start.bytes ++ emitted) ∧
      ∀ (world : World Machine) (base : UInt64) (before after : Bytes) (m : Machine),
        m.position = before.length →
        ∃ m', Arrives world base (before ++ emitted ++ after).toArray m m' ∧
          m'.position = before.length + emitted.length ∧
          (m.getX x).SaturatesTo (m'.get r).toInt64 ∧
          (∀ (other : World Arm64.Machine) (a : Arm64.Machine) (d : Arm64.Gp) (y : Arm64.Fp),
            a.getF y = m.getX x →
            Arm64.execute other base a (.fcvtzs d y) = Arm64.next (a.set d (m'.get r))) ∧
          (∀ q : Gp, q ≠ r → m'.get q = m.get q) ∧
          ∀ y : Xmm, y ≠ ⟨15⟩ → m'.getX y = m.getX y := by
  have hw := floatToInt_written (Written.begin start hstart #[] verbose) hr hx
  refine ⟨encodeAll (saturationCode r x), hw.failure_eq_none_iff, fun hf => (hw.fits hf).2,
    fun world base before after m hp => ?_⟩
  have p : Point (fun q => q = r) (before ++ encodeAll (saturationCode r x) ++ after).toArray
      m.position _ m m (saturationCode r x) :=
    Point.first (hp ▸ codeAt_between before after _)
  obtain ⟨m', ha, hstop, hu, hres, hkept⟩ :=
    arrives_of_computes (saturation_computes (by simp) hne p)
  refine ⟨m', ha, hp ▸ hstop, ?_, fun other a d y hy => ?_, fun q hq => hu.kept q (by simp [hq]),
    hkept⟩
  · rw [hres]
    exact (m.getX x).saturatesTo_saturate
  · rw [Arm64.execute, hy, hres]

/-- The double at the lower end of the range gives the least integer, and so does minus infinity. -/
theorem float_conversion_saturates_least :
    ∃ w, w = perform { buffer := .create (utf8 "code") 64 0 } (.floatToInt rax (utf8 "xmm0")) ∧
      w.buffer.failure = none ∧
      ∀ (world : World Machine) (base : UInt64) (m : Machine), m.position = 0 →
        m.getX .xmm0 = ⟨0xc3e0000000000000⟩ ∨ m.getX .xmm0 = ⟨0xfff0000000000000⟩ →
        ∃ m', Arrives world base w.buffer.bytes.toArray m m' ∧
          (m'.get .rax).toInt64 = Int64.minValue ∧ m'.getX .xmm0 = m.getX .xmm0 := by
  have hready : (Buffer.create (utf8 "code") 64 0).Ready := Buffer.ready_create _ _ (by decide)
  have hr : Gp.ofName? rax = some .rax := by decide
  have hx : Xmm.ofName? (utf8 "xmm0") = some .xmm0 := by decide
  have hok : (perform { buffer := .create (utf8 "code") 64 0 }
      (.floatToInt rax (utf8 "xmm0"))).buffer.failure = none := by decide +kernel
  have hempty : (Buffer.create (utf8 "code") 64 0).bytes = [] := rfl
  obtain ⟨emitted, hfits, hb, hrun⟩ := float_conversion_saturates hready true hr hx (by decide)
  refine ⟨_, rfl, hok, fun world base m hp hbits => ?_⟩
  obtain ⟨m', hm, -, hsat, -, -, hkept⟩ := hrun world base [] [] m hp
  refine ⟨m', by simpa [hb (hfits.1 hok), hempty] using hm, ?_, hkept _ (by decide)⟩
  rcases hbits with h | h
  · have hs : (⟨0xc3e0000000000000⟩ : Binary64).significand = 0x10000000000000 := by decide
    have he : (⟨0xc3e0000000000000⟩ : Binary64).exponent = 11 := by decide
    have hn : (⟨0xc3e0000000000000⟩ : Binary64).isNegative = true := by decide
    refine hsat.small (h ▸ by decide) (h ▸ ?_)
    norm_num [Binary64.value, Binary64.absValue, hs, he, hn]
  · exact (hsat.infinite (h ▸ by decide)).trans (if_pos (h ▸ by decide))

end OnePass.X86
