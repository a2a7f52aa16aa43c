import OnePass.Proofs.Arm64.Integer
import OnePass.Proofs.Arm64.Rejection

/-!
# Integer operators on ARM64

What the code of an operator does wherever it stands and whatever the registers hold. It ends behind
itself with the exact result, wrapped around, and only the operands and the scratch registers
change. One operator is an exception: the remainder code writes the quotient to `x16` and then reads
its operands again, so its result is another one when just one operand is in `x16`.
-/

set_option autoImplicit false

namespace OnePass.Arm64

variable {world : World Machine} {base : UInt64} {code : Array UInt32} {m : Machine}

theorem runs_of_computes {spoiled : Gp → Bool} {start stop : Nat} {result : Machine → Prop}
    (h : Computes spoiled world base code start stop m result m) :
    ∃ n m', run world base code n m = .running m' ∧ m'.position = stop ∧
      Undisturbed spoiled m m' ∧ result m' := by
  obtain ⟨n, m', hn, hd⟩ := h.reaches fun _ => id
  exact ⟨n, m', run_eq_running_iff.2 hn, hd⟩

theorem codeAt_between (before after : List UInt32) (is : List Resolved) :
    CodeAt (before ++ is.map Instr.word ++ after).toArray before.length is :=
  ⟨after, by simp⟩

/-- The dividend in the scratch register is lost to the quotient. -/
theorem remainderLeft_dividend {s : Gp} (hs : s ≠ ⟨16⟩) (a b : UInt64) :
    remainderLeft ⟨16⟩ s a b = quotient a b - quotient a b * b := by
  by_cases h0 : b = 0
  · have hq : quotient a 0 = 0 := rfl
    simp [remainderLeft, hs, h0, hq]
  · simp [remainderLeft, hs, h0]

/-- The divisor in the scratch register is lost to the quotient. -/
theorem remainderLeft_divisor {d : Gp} (hd : d ≠ ⟨16⟩) (a b : UInt64) :
    remainderLeft d ⟨16⟩ a b =
      if quotient a b = 0 then 0 else a - quotient a b * quotient a b := by
  simp [remainderLeft, hd, Ne.symm hd]

def Gp.touched (d s r : Gp) : Bool := r = d || r = s || r = ⟨16⟩ || r = ⟨17⟩

variable {op : Operator} {dst src : Text} {d s : Gp} {is : List Resolved}

theorem lt_of_ne_zero_register {r : Gp} (h : r ≠ ⟨31⟩) : r.index.val < 31 := by
  obtain ⟨i⟩ := r
  have hne : i.val ≠ 31 := fun hi => h (congrArg Gp.mk (Fin.ext hi))
  exact Nat.lt_of_le_of_ne (Nat.le_of_lt_succ i.isLt) hne

theorem arithmetic_computes {spoiled : Gp → Bool} {i : IntOp} {stop : Nat}
    (p : Point spoiled code m.position stop m m [.int i d d s])
    (hi : (Instr.int i d d s : Resolved).Encodable)
    (hop : ∀ a b, i.apply a b = (op.onInts a.toInt64 b.toInt64).toUInt64)
    (htd : spoiled d = true) (hlt : d.index.val < 31) :
    Computes spoiled world base code m.position stop m
      (fun m' => m'.get d = (op.onInts (m.get d).toInt64 (m.get s).toInt64).toUInt64) m :=
  p.plain hi htd rfl (by simp) fun p => p.finish (by simp [hop, hlt])

/-- What the code of an operator leaves in its first register. -/
theorem intBinary_computes (hd : Gp.ofName? dst = some d) (hs : Gp.ofName? src = some s)
    (hd' : d ≠ ⟨31⟩) (hs' : s ≠ ⟨31⟩) (ho : lower? (.intBinary op dst src) = some is)
    (hc : CodeAt code m.position is) :
    Computes (Gp.touched d s) world base code m.position (m.position + is.length) m
      (fun m' => m'.get d = if op = .mod then remainderLeft d s (m.get d) (m.get s)
        else (op.onInts (m.get d).toInt64 (m.get s).toInt64).toUInt64) m := by
  have hx17 : Gp.ofName? x17 = some ⟨17⟩ := by decide
  have hlt := lt_of_ne_zero_register hd'
  have hlt' := lt_of_ne_zero_register hs'
  have htd : Gp.touched d s d = true := by simp [Gp.touched]
  have hts : Gp.touched d s s = true := by simp [Gp.touched]
  have p : Point (Gp.touched d s) code m.position _ m m is := Point.first hc
  cases op with
  | add =>
    simp only [lower?, single, Instr.resolve?, hd, hs] at ho
    cases ho
    exact arithmetic_computes p trivial (fun _ _ => rfl) htd hlt
  | sub =>
    simp only [lower?, single, Instr.resolve?, hd, hs] at ho
    cases ho
    exact arithmetic_computes p (fun h => hd' (congrArg Gp.mk h)) (fun _ _ => rfl) htd hlt
  | mul =>
    simp only [lower?, single, Instr.resolve?, hd, hs] at ho
    cases ho
    exact arithmetic_computes p trivial (fun _ _ => rfl) htd hlt
  | div =>
    simp only [lower?, single, Instr.resolve?, hd, hs] at ho
    cases ho
    exact arithmetic_computes p trivial quotient_eq htd hlt
  | mod =>
    simp only [lower?, hd, hs] at ho
    cases ho
    exact modulo_leaves htd (by simp [Gp.touched]) hlt hlt' p
  | pow =>
    simp only [lower?] at ho
    split at ho
    case isTrue => cases ho
    case isFalse hn =>
      simp only [not_or] at hn
      have hdx : d ≠ ⟨17⟩ := fun h => hn.1 (Gp.ofName?_inj hd (h ▸ hx17))
      have hsx : s ≠ ⟨17⟩ := fun h => hn.2.1 (Gp.ofName?_inj hs (h ▸ hx17))
      have hne : d ≠ s := fun h => hn.2.2 (Gp.ofName?_inj hd (h ▸ hs))
      simp only [hd, hs] at ho
      cases ho
      exact power_computes htd hts (by simp [Gp.touched]) hlt hlt' hdx hsx hne p
  | unknown => cases ho

theorem intBinary_runs {start : Buffer} {verbose : Bool} (hstart : start.Ready)
    (hd : Gp.ofName? dst = some d) (hs : Gp.ofName? src = some s) (hd' : d ≠ ⟨31⟩) (hs' : s ≠ ⟨31⟩)
    (hok : (perform { buffer := start, verbose } (.intBinary op dst src)).buffer.failure = none) :
    ∃ (emitted : Bytes) (ws : List UInt32),
      (perform { buffer := start, verbose } (.intBinary op dst src)).buffer.bytes =
        start.bytes ++ emitted ∧
      words emitted = some ws ∧
      ∀ (world : World Machine) (base : UInt64) (before after : List UInt32) (m : Machine),
        m.position = before.length →
        ∃ n m', run world base (before ++ ws ++ after).toArray n m = .running m' ∧
          m'.position = before.length + ws.length ∧
          m'.get d = (if op = .mod then remainderLeft d s (m.get d) (m.get s)
            else (op.onInts (m.get d).toInt64 (m.get s).toInt64).toUInt64) ∧
          ∀ r : Gp, r ≠ d → r ≠ s → r ≠ ⟨16⟩ → r ≠ ⟨17⟩ → m'.get r = m.get r := by
  have hw := Written.begin start hstart #[] verbose
  obtain ⟨is, his⟩ := Option.isSome_iff_exists.1 (lowered_of_perform hw.usable hok)
  have hemit := perform_written hw his
  refine ⟨encodeAll is, is.map Instr.word, (hemit.fits (hemit.failure_eq_none_iff.1 hok)).2,
    words_encodeAll is, fun world base before after m hp => ?_⟩
  have hc : CodeAt (before ++ is.map Instr.word ++ after).toArray m.position is :=
    hp ▸ codeAt_between before after is
  obtain ⟨n, m', hn, hstop, hu, hr⟩ := runs_of_computes (intBinary_computes hd hs hd' hs' his hc)
  refine ⟨n, m', hn, by simpa [hp] using hstop, hr, fun r h1 h2 h3 h4 => hu.kept r ?_⟩
  simp [Gp.touched, h1, h2, h3, h4]

/-- Accepted integer operators: the emitted code, wherever it stands, leaves the exact result
wrapped around to 64 bits and changes its operands and the scratch registers only. A remainder with
just one operand in `x16` is not exact; what it is instead follows from the quotient `q`. -/
theorem integer_operators_exact_off_scratch {start : Buffer} {verbose : Bool} (hstart : start.Ready)
    (hd : Gp.ofName? dst = some d) (hs : Gp.ofName? src = some s) (hd' : d ≠ ⟨31⟩) (hs' : s ≠ ⟨31⟩)
    (hok : (perform { buffer := start, verbose } (.intBinary op dst src)).buffer.failure = none) :
    ∃ (emitted : Bytes) (ws : List UInt32),
      (perform { buffer := start, verbose } (.intBinary op dst src)).buffer.bytes =
        start.bytes ++ emitted ∧
      words emitted = some ws ∧
      ∀ (world : World Machine) (base : UInt64) (before after : List UInt32) (m : Machine)
        (a b q : Int64),
        m.position = before.length → (m.get d).toInt64 = a → (m.get s).toInt64 = b →
        q = Int64.ofInt (Operator.div.exact a.toInt b.toInt) →
        ∃ n m', run world base (before ++ ws ++ after).toArray n m = .running m' ∧
          m'.position = before.length + ws.length ∧
          ((op = .mod → (d = ⟨16⟩ ↔ s = ⟨16⟩)) →
            (m'.get d).toInt64 = Int64.ofInt (op.exact a.toInt b.toInt)) ∧
          (op = .mod → d = ⟨16⟩ → s ≠ ⟨16⟩ → (m'.get d).toInt64 = q - q * b) ∧
          (op = .mod → d ≠ ⟨16⟩ → s = ⟨16⟩ →
            (m'.get d).toInt64 = if q = 0 then 0 else a - q * q) ∧
          ∀ r : Gp, r ≠ d → r ≠ s → r ≠ ⟨16⟩ → r ≠ ⟨17⟩ → m'.get r = m.get r := by
  obtain ⟨emitted, ws, hb, hws, hrun⟩ := intBinary_runs hstart hd hs hd' hs' hok
  refine ⟨emitted, ws, hb, hws, fun world base before after m a b q hp ha hb' hq => ?_⟩
  obtain ⟨n, m', hn, hstop, hr, hkept⟩ := hrun world base before after m hp
  have hq' : (quotient (m.get d) (m.get s)).toInt64 = q := by
    rw [hq, ← Operator.onInts_eq, ← ha, ← hb']
    exact congrArg UInt64.toInt64 (quotient_eq _ _)
  refine ⟨n, m', hn, hstop, fun hmod => ?_, fun hmod hdx hsx => ?_, fun hmod hdx hsx => ?_, hkept⟩
  · rw [hr, ← Operator.onInts_eq, ← ha, ← hb']
    by_cases h : op = .mod
    · rw [if_pos h, remainderLeft_exact (hmod h) fun hds => congrArg m.get hds, h]
      rfl
    · rw [if_neg h]
      rfl
  · subst hdx
    rw [hr, if_pos hmod, remainderLeft_dividend hsx, UInt64.toInt64_sub,
      UInt64.toInt64_mul, hq', hb']
  · subst hsx
    have hzero : quotient (m.get d) (m.get ⟨16⟩) = 0 ↔ q = 0 := by
      rw [← hq']
      exact ⟨congrArg UInt64.toInt64, congrArg Int64.toUInt64⟩
    rw [hr, if_pos hmod, remainderLeft_divisor hdx, apply_ite UInt64.toInt64, UInt64.toInt64_sub,
      UInt64.toInt64_mul, hq', ha]
    simp only [hzero]
    rfl

/-- A remainder with both operands away from the scratch registers. -/
theorem integer_operators_exact_off_scratch_remainder :
    ∃ w, w = perform { buffer := .create (utf8 "code") 64 0 }
        (.intBinary .mod (utf8 "x0") (utf8 "x1")) ∧
      w.buffer.failure = none ∧
      ∃ ws, words w.buffer.bytes = some ws ∧
        ∀ (world : World Machine) (base : UInt64) (m : Machine), m.position = 0 →
          (m.get ⟨0⟩).toInt64 = -7 → (m.get ⟨1⟩).toInt64 = 3 →
          ∃ n m', run world base ws.toArray n m = .running m' ∧ (m'.get ⟨0⟩).toInt64 = -1 := by
  have hready : (Buffer.create (utf8 "code") 64 0).Ready := Buffer.ready_create _ _ (by decide)
  have hd : Gp.ofName? (utf8 "x0") = some ⟨0⟩ := by decide
  have hs : Gp.ofName? (utf8 "x1") = some ⟨1⟩ := by decide
  have hok : (perform { buffer := .create (utf8 "code") 64 0 }
      (.intBinary .mod (utf8 "x0") (utf8 "x1"))).buffer.failure = none := by decide +kernel
  have hempty : (Buffer.create (utf8 "code") 64 0).bytes = [] := rfl
  obtain ⟨emitted, ws, hb, hws, hrun⟩ :=
    integer_operators_exact_off_scratch hready hd hs (by decide) (by decide) hok
  refine ⟨_, rfl, hok, ws, by simpa [hb, hempty] using hws, fun world base m hp ha hb' => ?_⟩
  obtain ⟨n, m', hn, -, hr, -⟩ := hrun world base [] [] m (-7) 3 _ hp ha hb' rfl
  exact ⟨n, m', by simpa using hn, hr fun _ => by decide⟩

/-- With the dividend in `x16`, seven modulo three is minus four. -/
theorem remainder_of_scratch_register_differs :
    ∃ w, w = perform { buffer := .create (utf8 "code") 64 0 }
        (.intBinary .mod (utf8 "x16") (utf8 "x1")) ∧
      w.buffer.failure = none ∧
      ∃ ws, words w.buffer.bytes = some ws ∧
        ∀ (world : World Machine) (base : UInt64) (m : Machine), m.position = 0 →
          (m.get ⟨16⟩).toInt64 = 7 → (m.get ⟨1⟩).toInt64 = 3 →
          ∃ n m', run world base ws.toArray n m = .running m' ∧ (m'.get ⟨16⟩).toInt64 = -4 ∧
            Int64.ofInt (Operator.mod.exact 7 3) = 1 := by
  have hready : (Buffer.create (utf8 "code") 64 0).Ready := Buffer.ready_create _ _ (by decide)
  have hd : Gp.ofName? (utf8 "x16") = some ⟨16⟩ := by decide
  have hs : Gp.ofName? (utf8 "x1") = some ⟨1⟩ := by decide
  have hok : (perform { buffer := .create (utf8 "code") 64 0 }
      (.intBinary .mod (utf8 "x16") (utf8 "x1"))).buffer.failure = none := by decide +kernel
  have hempty : (Buffer.create (utf8 "code") 64 0).bytes = [] := rfl
  obtain ⟨emitted, ws, hb, hws, hrun⟩ :=
    intBinary_runs hready hd hs (by decide) (by decide) hok
  refine ⟨_, rfl, hok, ws, by simpa [hb, hempty] using hws, fun world base m hp ha hb' => ?_⟩
  obtain ⟨n, m', hn, -, hr, -⟩ := hrun world base [] [] m hp
  have ha' : m.get ⟨16⟩ = 7 := congrArg Int64.toUInt64 ha
  have hs' : m.get ⟨1⟩ = 3 := congrArg Int64.toUInt64 hb'
  refine ⟨n, m', by simpa using hn, ?_, by decide⟩
  rw [hr, ha', hs']
  decide

end OnePass.Arm64
