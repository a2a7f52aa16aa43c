import OnePass.Proofs.Arm64.Activation
import OnePass.Proofs.Arm64.Integer

/-!
# Operations on ARM64

The instructions of every operation that compilation uses do what the operation promises, and
execute nothing that leaves the stack of the function.
-/

set_option autoImplicit false

namespace OnePass.Arm64

namespace Activation

open Native (Used)

variable {A : Activation} {m m' : Machine} {slots : List UInt64}

def Performs (A : Activation) (o : Operation) (is : List Resolved) : Prop :=
  ∀ (m : Machine) (slots : List UInt64), CodeAt A.code m.position is → A.Stands m slots →
    A.context.Enabled o (view m slots) →
    A.Leads (A.Visits m.position (m.position + is.length) slots.length)
      (fun m' => m'.position = m.position + is.length ∧
        ∃ slots', A.Stands m' slots' ∧ A.context.Effect o (view m slots) (view m' slots')) m

theorem quiet_of_undisturbed (h : Undisturbed Gp.volatile m m') (slots slots' : List UInt64) :
    A.context.Quiet (view m slots) (view m' slots') :=
  ⟨h.free, fun a _ => congrFun h.ram a⟩

theorem performs_of_computes {o : Operation} {is : List Resolved}
    (result : Machine → List UInt64 → Machine → Prop)
    (hc : ∀ m slots, CodeAt A.code m.position is → Computes Gp.volatile A.world A.base A.code
      m.position (m.position + is.length) m (result m slots) m)
    (he : ∀ m m' slots, Undisturbed Gp.volatile m m' → result m slots m' →
      A.context.Effect o (view m slots) (view m' slots)) : A.Performs o is := by
  intro m slots hcode hs _
  refine (leads_of_computes hs (hc m slots hcode)).mono (fun _ h => h) (fun _ h => h) ?_
  rintro m' ⟨hp, hs', hu, hr⟩
  exact ⟨hp, slots, hs', he m m' slots hu hr⟩

theorem performs_word {o : Operation} {is : List Resolved} {reg : Text} {r : Gp}
    {f : Native.View → UInt64} (hr : Gp.ofName? reg = some r) (hv : r.volatile = true)
    (ho : ∀ v v', v'.word reg = f v ∧ v'.slots = v.slots ∧ A.context.Quiet v v' →
      A.context.Effect o v v')
    (hc : ∀ m slots, CodeAt A.code m.position is → Computes Gp.volatile A.world A.base A.code
      m.position (m.position + is.length) m (fun m' => m'.get r = f (view m slots)) m) :
    A.Performs o is :=
  performs_of_computes _ hc fun _ _ _ hu h =>
    ho _ _ ⟨(word_view hr hv _ _).trans h, rfl, quiet_of_undisturbed hu _ _⟩

theorem performs_double {o : Operation} {is : List Resolved} {freg : Text} {x : Fp}
    {f : Native.View → Binary64} (hx : Fp.ofName? freg = some x)
    (ho : ∀ v v', v'.double freg = f v ∧ v'.slots = v.slots ∧ A.context.Quiet v v' →
      A.context.Effect o v v')
    (hc : ∀ m slots, CodeAt A.code m.position is → Computes Gp.volatile A.world A.base A.code
      m.position (m.position + is.length) m (fun m' => m'.getF x = f (view m slots)) m) :
    A.Performs o is :=
  performs_of_computes _ hc fun _ _ _ hu h =>
    ho _ _ ⟨(double_view hx _ _).trans h, rfl, quiet_of_undisturbed hu _ _⟩

section Registers

variable {reg reg' freg freg' : Text} {r r' : Gp} {x x' : Fp} (hr : Gp.ofName? reg = some r)
  (hv : r.volatile = true) (hr' : Gp.ofName? reg' = some r') (hv' : r'.volatile = true)
  (hx : Fp.ofName? freg = some x) (hy : x.volatile = true) (hx' : Fp.ofName? freg' = some x')

include hr hv in
theorem performs_loadImmediate (value : UInt64) :
    A.Performs (.loadImmediate reg value) (wideCode r value) :=
  performs_word hr hv (f := fun _ => value) (fun _ _ h => h) fun m slots hc =>
    wide_computes hv (Gp.lt_of_volatile hv) [] (by simpa using Point.first hc) fun q p =>
      p.finish (by simp [Gp.lt_of_volatile hv])

include hx hy in
theorem performs_loadFloat (address : UInt64) :
    A.Performs (.loadFloat freg address) (wideCode ⟨16⟩ address ++ [Instr.ldrD x ⟨16⟩]) :=
  performs_double hx (f := fun v => ⟨v.memory.word address⟩) (fun _ _ h => h) fun m slots hc =>
    wide_computes rfl (by decide) [.ldrD x ⟨16⟩] (Point.first hc) fun q p =>
      p.plain trivial hy rfl rfl fun p => p.finish (by
        simp +decide [view, Machine.addressIn])

include hr hv in
theorem performs_move_self : A.Performs (.move reg reg) [] :=
  performs_word hr hv (f := fun v => v.word reg) (fun _ _ h => h) fun m slots hc =>
    (Point.first hc).finish (word_view hr hv m slots).symm

include hx in
theorem performs_moveFloat_self : A.Performs (.moveFloat freg freg) [] :=
  performs_double hx (f := fun v => v.double freg) (fun _ _ h => h) fun m slots hc =>
    (Point.first hc).finish (double_view hx m slots).symm

include hr hv hx in
theorem performs_floatToInt : A.Performs (.floatToInt reg freg) [.fcvtzs r x] :=
  performs_word hr hv (f := fun v => (v.double freg).saturate.toUInt64) (fun _ _ h => h)
    fun m slots hc =>
      (Point.first hc).plain trivial hv rfl (by simp) fun p => p.finish (by
        simp [double_view hx, Gp.lt_of_volatile hv])

include hr hv in
theorem performs_intNegate : A.Performs (.intNegate reg) [.neg r r] :=
  performs_word hr hv (f := fun v => -v.word reg) (fun _ _ h => h) fun m slots hc =>
    (Point.first hc).plain trivial hv rfl (by simp) fun p => p.finish (by
      simp [word_view hr hv, Gp.lt_of_volatile hv])

include hx hy in
theorem performs_floatNegate : A.Performs (.floatNegate freg) [.fneg x x] :=
  performs_double hx (f := fun v => (v.double freg).neg) (fun _ _ h => h) fun m slots hc =>
    (Point.first hc).plain trivial hy rfl rfl fun p => p.finish (by simp [double_view hx])

include hr hv hr' hv' in
theorem performs_arithmetic {op : Operator} {i : IntOp} (hi : Instr.Encodable (.int i r r r'))
    (hop : ∀ a b : UInt64, i.apply a b = (op.onInts a.toInt64 b.toInt64).toUInt64) :
    A.Performs (.intBinary op reg reg') [.int i r r r'] :=
  performs_word hr hv
    (f := fun v => (op.onInts (v.word reg).toInt64 (v.word reg').toInt64).toUInt64)
    (fun _ _ h => h) fun m slots hc =>
      (Point.first hc).plain hi hv rfl (by simp) fun p => p.finish (by
        simp [word_view hr hv, word_view hr' hv', Gp.lt_of_volatile hv, hop])

include hr hv hr' hv' in
theorem performs_modulo (hd : r ≠ ⟨16⟩) (hs : r' ≠ ⟨16⟩) :
    A.Performs (.intBinary .mod reg reg') (moduloCode r r') :=
  performs_word hr hv
    (f := fun v => (Operator.mod.onInts (v.word reg).toInt64 (v.word reg').toInt64).toUInt64)
    (fun _ _ h => h) fun m slots hc => by
      rw [word_view hr hv, word_view hr' hv']
      exact modulo_computes hv rfl (Gp.lt_of_volatile hv) (Gp.lt_of_volatile hv')
        ⟨fun h => absurd h hd, fun h => absurd h hs⟩ (Point.first hc)

include hr hv hr' hv' in
theorem performs_power (hd : r ≠ ⟨17⟩) (hs : r' ≠ ⟨17⟩) (hne : r ≠ r') :
    A.Performs (.intBinary .pow reg reg') (powerCode r r') :=
  performs_word hr hv
    (f := fun v => (Operator.pow.onInts (v.word reg).toInt64 (v.word reg').toInt64).toUInt64)
    (fun _ _ h => h) fun m slots hc => by
      rw [word_view hr hv, word_view hr' hv']
      exact power_computes hv hv' rfl (Gp.lt_of_volatile hv) (Gp.lt_of_volatile hv') hd hs hne
        (Point.first hc)

include hx hy hx' in
theorem performs_floatBinary {op : Operator} {i : FloatOp}
    (hop : ∀ D, i.apply D = op.onFloats D) :
    A.Performs (.floatBinary op freg freg') [.float i x x x'] :=
  performs_double hx (f := fun v => op.onFloats A.world.doubles (v.double freg) (v.double freg'))
    (fun _ _ h => h) fun m slots hc =>
      (Point.first hc).plain trivial hy rfl rfl fun p => p.finish (by
        simp [double_view hx, double_view hx', hop])

include hx hy hr hv in
theorem performs_intToFloat : A.Performs (.intToFloat freg reg) [.scvtf x r] := by
  refine performs_of_computes
    (fun m _ m' => m'.getF x = A.world.doubles.ofInt (m.get r).toInt64 ∧
      (∀ y, y ≠ x → m'.getF y = m.getF y) ∧ ∀ s, m'.get s = m.get s) (fun m slots hc => ?_)
    fun m m' slots hu h => ⟨?_, ?_, ?_, rfl, quiet_of_undisturbed hu _ _⟩
  · refine (Point.first hc).plain trivial hy rfl rfl fun p => p.finish ⟨by simp, ?_, by simp⟩
    intro y hy
    simp [Ne.symm hy]
  · rw [double_view hx, word_view hr hv, h.1]
    rfl
  · intro n hn
    exact double_view_congr fun y hy =>
      h.2.1 y fun he => hn (Fp.ofName?_inj hy (he ▸ hx))
  · exact funext fun n => word_view_congr fun s _ _ => h.2.2 s

end Registers

theorem safe_of_fetch {i : Resolved} {is : List Resolved} {s : Machine}
    (hc : CodeAt A.code s.position (i :: is)) (hi : i.Encodable) (hs : A.Safe s i)
    (j : Resolved) (hj : fetch A.code s = some j) : A.Safe s j := by
  rw [fetch_at hc hi] at hj
  exact Option.some.inj hj ▸ hs

theorem advance_of_execute {i : Resolved} {is : List Resolved} {s s' : Machine}
    (hc : CodeAt A.code s.position (i :: is)) (hi : i.Encodable)
    (hx : execute A.world A.base s i = .running s') :
    successor (step A.world A.base A.code) s = some s' :=
  successor_of_running ((step_at hc hi).trans hx)

theorem performs_single {o : Operation} {i : Resolved} (hi : i.Encodable)
    (hcall : ¬i.Calls)
    (hx : ∀ m slots, A.Stands m slots → A.context.Enabled o (view m slots) →
      (∀ a ∈ Instr.stores m i, A.frame.toNat - 16 * A.limit ≤ a.toNat ∧
        a.toNat + 8 ≤ A.entry.sp.toNat) ∧
      ∃ m' slots', execute A.world A.base m i = next m' ∧ m'.position = m.position ∧
        A.Stands m' slots' ∧ A.context.Effect o (view m slots) (view m' slots')) :
    A.Performs o [i] := by
  intro m slots hc hs he
  obtain ⟨hstore, m', slots', hm, hp, hs', heff⟩ := hx m slots hs he
  rw [next_eq, hp] at hm
  refine .step ⟨Nat.le_refl _, Nat.lt_succ_self _, fun _ => hs.level,
    safe_of_fetch hc hi ⟨fun hc => absurd hc hcall, hstore⟩⟩ (advance_of_execute hc hi hm)
    (.done ⟨rfl, slots', ?_, heff⟩)
  exact ⟨hs'.frame, hs'.top, hs'.depth, hs'.slots, hs'.saved, hs'.savedLink, hs'.preserved,
    hs'.doubles⟩

theorem Stands.push (h : A.Stands m slots) (hlt : slots.length < A.limit) (v : UInt64) :
    A.Stands (m.push v) (v :: slots) := by
  have hspace := A.frame_space
  have hf := A.toNat_frame
  have hlt' := A.entry.sp.toNat_lt
  have htop := toNat_stackTop A.frame (slots.length + 1) (by omega)
  have hsp : m.sp - 16 = stackTop A.frame (slots.length + 1) := by rw [h.top, stackTop_succ]
  have h8 : (A.frame + 8).toNat = A.frame.toNat + 8 := toNat_add_ofNat (i := 8) (by omega)
  refine ⟨h.frame, hsp, hlt, ?_, ?_, ?_, h.preserved, h.doubles⟩
  · rw [Machine.ram_push, hsp]
    exact h.slots.push v (by omega)
  · rw [Machine.ram_push, hsp, Ram.word_storeWord_outside _ _ (by omega) (by omega) (by omega),
      h.saved]
  · rw [Machine.ram_push, hsp, Ram.word_storeWord_outside _ _ (by omega) (by omega) (by omega),
      h.savedLink]

theorem quiet_push (h : A.Stands m slots) (hlt : slots.length < A.limit) (v : UInt64) :
    A.context.Quiet (view m slots) (view (m.push v) (v :: slots)) := by
  have hspace := A.frame_space
  have hf := A.toNat_frame
  have hlt' := A.entry.sp.toNat_lt
  have htop := toNat_stackTop A.frame (slots.length + 1) (by omega)
  refine ⟨rfl, fun a ha => ?_⟩
  simp only [view, Machine.ram_push, h.top, ← stackTop_succ]
  apply Ram.storeWord_outside _ _ (by omega)
  simp only [Native.Activation.context, processor] at ha
  omega

theorem store_push (h : A.Stands m slots) (hlt : slots.length < A.limit) :
    ∀ a ∈ [m.sp - 16], A.frame.toNat - 16 * A.limit ≤ a.toNat ∧
      a.toNat + 8 ≤ A.entry.sp.toNat := by
  have hspace := A.frame_space
  have hf := A.toNat_frame
  have htop := toNat_stackTop A.frame (slots.length + 1) (by omega)
  intro a ha
  obtain rfl := List.mem_singleton.1 ha
  rw [h.top, ← stackTop_succ]
  omega

theorem performs_push {reg : Text} {r : Gp} (hr : Gp.ofName? reg = some r)
    (hv : r.volatile = true) : A.Performs (.push reg) [.strPre r] :=
  performs_single trivial id fun m slots hs hlt => by
    refine ⟨store_push hs hlt, m.push (m.get r), _, rfl, rfl, hs.push hlt _, ?_,
      quiet_push hs hlt _⟩
    rw [word_view hr hv]
    rfl

theorem performs_pushFloat {freg : Text} {x : Fp} (hx : Fp.ofName? freg = some x) :
    A.Performs (.pushFloat freg) [.strPreD x] :=
  performs_single trivial id fun m slots hs hlt => by
    refine ⟨store_push hs hlt, m.push (m.getF x).bits, _, rfl, rfl, hs.push hlt _, ?_,
      quiet_push hs hlt _⟩
    rw [double_view hx]
    rfl

theorem Stands.top_eq {v : UInt64} (h : A.Stands m (v :: slots)) : m.top = v := by
  rw [Machine.top, h.top]
  exact h.slots.1

theorem Stands.drop {v : UInt64} (h : A.Stands m (v :: slots)) : A.Stands m.drop slots where
  frame := h.frame
  top := by
    rw [Machine.sp_drop, h.top, List.length_cons, stackTop_succ, UInt64.sub_add_cancel]
  depth := Nat.le_of_succ_le h.depth
  slots := h.slots.2
  saved := h.saved
  savedLink := h.savedLink
  preserved := h.preserved
  doubles := h.doubles

theorem performs_pop {reg : Text} {r : Gp} (hr : Gp.ofName? reg = some r)
    (hv : r.volatile = true) : A.Performs (.pop reg) [.ldrPost r] :=
  performs_single trivial id fun m slots hs he => by
    obtain ⟨v, rest, rfl⟩ := List.exists_cons_of_ne_nil he
    refine ⟨List.forall_mem_nil _, m.drop.set r m.top, rest, rfl, by simp,
      hs.drop.of_undisturbed (.set hv _ _), ?_, fun n hn => ?_, ?_, by simp [view], by simp [view]⟩
    · rw [word_view hr hv]
      simp [view, hs.top_eq, Gp.lt_of_volatile hv]
    · exact word_view_congr fun r' hn' hv' => by
        have hne : r ≠ r' := fun h => hn (Gp.ofName?_inj hn' (h ▸ hr))
        simp [hne]
    · exact funext fun n => double_view_congr fun x _ => by simp

theorem performs_popFloat {freg : Text} {x : Fp} (hx : Fp.ofName? freg = some x)
    (hy : x.volatile = true) : A.Performs (.popFloat freg) [.ldrPostD x] :=
  performs_single trivial id fun m slots hs he => by
    obtain ⟨v, rest, rfl⟩ := List.exists_cons_of_ne_nil he
    refine ⟨List.forall_mem_nil _, m.drop.setF x ⟨m.top⟩, rest, rfl, rfl,
      hs.drop.of_undisturbed (.setF hy _ _), ?_, fun n hn => ?_, ?_, by simp [view], by simp [view]⟩
    · rw [double_view hx]
      simp [view, hs.top_eq]
    · exact double_view_congr fun y hn' => by
        have hne : x ≠ y := fun h => hn (Fp.ofName?_inj hn' (h ▸ hx))
        simp [hne]
    · exact funext fun n => word_view_congr fun r _ hv => by simp

theorem call_eq (world : World Machine) (base : UInt64) (m : Machine) (p : Nat) (target : UInt64) :
    call world base ((m.set ⟨16⟩ target).moveTo p) target =
      match world.routine target (m.calling p target (base + 4 * UInt64.ofNat (p + 1))) with
      | some m' => next m'
      | none => .stuck := rfl

theorem kept_call {top target ret : UInt64} {p : Nat} (h : Kept top (m.calling p target ret) m') :
    next m' = .running (m'.moveTo (p + 1)) ∧ Kept top ((m.set ⟨16⟩ target).moveTo p) m' := by
  obtain ⟨hp, hsp, hg, hd, hst⟩ := h
  simp only [Machine.calling, Machine.position_set, Machine.position_moveTo, Machine.sp_set,
    Machine.sp_moveTo, Machine.getF_set, Machine.getF_moveTo, Machine.ram_set,
    Machine.ram_moveTo] at hp hsp hd hst
  refine ⟨by rw [next_eq, hp], hp, hsp, fun r hr hne => ?_, hd, hst⟩
  rw [hg r hr hne, Machine.calling]
  simp [Ne.symm hne]

theorem Stands.call (h : A.Stands m slots) (hk : Kept A.entry.sp m m') : A.Stands m' slots := by
  have hspace : 16 * A.limit + 16 ≤ A.entry.sp.toNat := A.space
  have hf := A.toNat_frame
  have hlt := A.entry.sp.toNat_lt
  have hd := h.depth
  have htop := toNat_stackTop A.frame slots.length (by omega)
  rw [← h.top] at htop
  have hword (a : UInt64) (hl : m.sp.toNat ≤ a.toNat) (hu : a.toNat + 8 ≤ A.entry.sp.toNat) :
      m'.ram.word a = m.ram.word a := by
    apply Ram.word_congr
    intro i hi
    have ha := toNat_add_ofNat (a := a) (i := i) (by omega)
    exact hk.stack _ (by omega) (by omega)
  have h8 : (A.frame + 8).toNat = A.frame.toNat + 8 := toNat_add_ofNat (i := 8) (by omega)
  refine ⟨(hk.registers _ rfl (by decide)).trans h.frame, hk.sp.trans h.top, hd, ?_, ?_, ?_,
    fun r hr => ?_, fun x hx => (hk.doubles x hx).trans (h.doubles x hx)⟩
  · exact h.slots.congr (by omega) fun a hl hu => hk.stack a (by omega) (by omega)
  · rw [hword _ (by omega) (by omega), h.saved]
  · rw [hword _ (by omega) (by omega), h.savedLink]
  · rw [hk.registers r (Gp.not_volatile hr) (Gp.ne_linkRegister hr), h.preserved r hr]

theorem leads_call (start depth : Nat) {q : Nat} {a : UInt64} (hs : A.Stands m slots)
    (he : A.context.Enabled (.call a) (view m slots)) (hc : CodeAt A.code q [.blr ⟨16⟩])
    (hq : start < q) :
    A.Leads (A.Visits start (q + 1) depth)
      (fun m' => m'.position = q + 1 ∧ A.Stands m' slots ∧
        A.context.Effect (.call a) (view m slots) (view m' slots)) ((m.set ⟨16⟩ a).moveTo q) := by
  have hsame : Undisturbed Gp.volatile m ((m.set ⟨16⟩ a).moveTo q) :=
    (Undisturbed.set rfl m a).trans (.moveTo _ _)
  have hs₁ : A.Stands ((m.set ⟨16⟩ a).moveTo q) slots := hs.of_undisturbed hsame
  have hx : execute A.world A.base ((m.set ⟨16⟩ a).moveTo q) (.blr ⟨16⟩) =
      call A.world A.base ((m.set ⟨16⟩ a).moveTo q) a := by
    simp +decide [execute]
  have hvisit : A.Visits start (q + 1) depth ((m.set ⟨16⟩ a).moveTo q) :=
    ⟨Nat.le_of_lt hq, Nat.lt_succ_self q, fun h => absurd h (Nat.ne_of_gt hq),
      safe_of_fetch hc trivial ⟨fun _ => ⟨slots.length, hs.depth, hs₁.top⟩,
        List.forall_mem_nil _⟩⟩
  rw [call_eq] at hx
  cases hcall : A.world.routine a (m.calling q a (A.base + 4 * UInt64.ofNat (q + 1))) with
  | some k =>
    rw [hcall] at hx
    obtain ⟨hkept, heff⟩ := Native.Activation.effect_of_call he hs.depth hs.top hcall
    obtain ⟨hnext, hk⟩ := kept_call hkept
    exact .step hvisit (advance_of_execute hc trivial (hx.trans hnext))
      (.done ⟨rfl, (hs₁.call hk).of_undisturbed (.moveTo k _), heff⟩)
  | none =>
    rw [hcall] at hx
    have hstep : step A.world A.base A.code ((m.set ⟨16⟩ a).moveTo q) = .stuck :=
      (step_at (i := .blr ⟨16⟩) hc trivial).trans hx
    exact .lost hvisit (successor_of_stuck hstep)
      ⟨Native.Activation.not_total_of_call he hs.depth hs.top hcall, hstep, .blr ⟨16⟩,
        fetch_at (i := .blr ⟨16⟩) hc trivial, trivial⟩

theorem performs_call (r : Routine) :
    A.Performs (.call (A.symbols.address r))
      (wideCode ⟨16⟩ (A.symbols.address r) ++ [Instr.blr ⟨16⟩]) := by
  intro m slots hc hs he
  have hpos : 0 < (wideCode ⟨16⟩ (A.symbols.address r)).length := by simp [wideCode]
  have hwide : Computes Gp.volatile A.world A.base A.code m.position
      (m.position + (wideCode ⟨16⟩ (A.symbols.address r)).length) m
      (fun m' => ∃ q, m' = (m.set ⟨16⟩ (A.symbols.address r)).moveTo q) m :=
    wide_computes rfl (by decide) [] (by simpa using Point.first hc.left) fun q p =>
      p.finish ⟨q, rfl⟩
  rw [List.length_append, List.length_singleton, ← Nat.add_assoc]
  refine OnePass.Leads.bind ((leads_of_computes hs hwide).mono (fun _ h => h) (fun s hv => ?_)
    fun _ h => h) ?_
  · exact ⟨hv.low, Nat.lt_succ_of_lt hv.high, hv.begins, hv.safe⟩
  · rintro s ⟨hp, -, -, q, rfl⟩
    obtain rfl : q = _ := hp
    refine (leads_call m.position slots.length hs he (CodeAt.right _ hc) (by omega)).mono
      (fun _ h => h) (fun _ h => h) ?_
    rintro m' ⟨hp, hs', heff⟩
    exact ⟨hp, slots, hs', heff⟩

/-- Every operation that compilation uses has instructions, and they perform it. -/
theorem performs_of_used {o : Operation} (h : Used ⟨roles, A.symbols⟩ o) :
    ∃ is, lower? o = some is ∧ A.Performs o is := by
  have hacc : Gp.ofName? roles.accumulator = some x0 := by decide
  have hop : Gp.ofName? roles.operand = some x1 := by decide
  have hfacc : Fp.ofName? roles.floatAccumulator = some d0 := by decide
  have hfop : Fp.ofName? roles.floatOperand = some d1 := by decide
  cases h with
  | loadWord value => exact ⟨_, rfl, performs_loadImmediate hacc rfl value⟩
  | loadFloat address => exact ⟨_, rfl, performs_loadFloat hfacc rfl address⟩
  | push => exact ⟨_, rfl, performs_push hacc rfl⟩
  | pushFloat => exact ⟨_, rfl, performs_pushFloat hfacc⟩
  | popAccumulator => exact ⟨_, rfl, performs_pop hacc rfl⟩
  | popOperand => exact ⟨_, rfl, performs_pop hop rfl⟩
  | popFirst => exact ⟨_, rfl, performs_pop hacc rfl⟩
  | popSecond => exact ⟨_, rfl, performs_pop hop rfl⟩
  | popResult => exact ⟨_, rfl, performs_pop hacc rfl⟩
  | popFloatAccumulator => exact ⟨_, rfl, performs_popFloat hfacc rfl⟩
  | popFloatOperand => exact ⟨_, rfl, performs_popFloat hfop rfl⟩
  | popFloatResult => exact ⟨_, rfl, performs_popFloat hfacc rfl⟩
  | moveResult => exact ⟨_, rfl, performs_move_self hacc rfl⟩
  | moveFloatResult => exact ⟨_, rfl, performs_moveFloat_self hfacc⟩
  | call r => exact ⟨_, rfl, performs_call r⟩
  | convertAccumulator => exact ⟨_, rfl, performs_intToFloat hacc rfl hfacc rfl⟩
  | convertOperand => exact ⟨_, rfl, performs_intToFloat hop rfl hfop rfl⟩
  | truncate => exact ⟨_, rfl, performs_floatToInt hacc rfl hfacc⟩
  | intBinary op hk =>
    cases op with
    | add => exact ⟨_, rfl, performs_arithmetic hacc rfl hop rfl trivial fun _ _ => rfl⟩
    | sub =>
      exact ⟨_, rfl, performs_arithmetic hacc rfl hop rfl (show x0.index ≠ 31 by decide)
        fun _ _ => rfl⟩
    | mul => exact ⟨_, rfl, performs_arithmetic hacc rfl hop rfl trivial fun _ _ => rfl⟩
    | div => exact ⟨_, rfl, performs_arithmetic hacc rfl hop rfl trivial quotient_eq⟩
    | mod => exact ⟨_, rfl, performs_modulo hacc rfl hop rfl (by decide) (by decide)⟩
    | pow => exact ⟨_, rfl, performs_power hacc rfl hop rfl (by decide) (by decide) (by decide)⟩
    | unknown => exact absurd rfl hk
  | floatBinary op hk =>
    rcases hk with rfl | rfl | rfl | rfl <;>
      exact ⟨_, rfl, performs_floatBinary hfacc rfl hfop fun _ => rfl⟩
  | negate => exact ⟨_, rfl, performs_intNegate hacc rfl⟩
  | negateFloat => exact ⟨_, rfl, performs_floatNegate hfacc rfl⟩

/-- An operation that has no code does not touch the slots. -/
theorem shift_of_length_eq_zero {symbols : Symbols} {o : Operation}
    (hu : Used ⟨roles, symbols⟩ o) (h : (lowerAll [o]).length = 0) (d : Nat) :
    Native.shift d o = d := by
  cases hu <;> first | rfl | (dsimp only at h; exact absurd h (by decide))

def realization (A : Activation) : Native.Realization A where
  stands := A.Stands
  span os := (lowerAll os).length
  span_append as bs := by rw [lowerAll_append, List.length_append]
  span_prologue := by decide
  code p os := CodeAt A.code p (lowerAll os)
  code_append as bs h := by
    rw [lowerAll_append] at h
    exact ⟨h.left, h.right _⟩
  solid := shift_of_length_eq_zero
  performs {o} hu m slots hc hs he := by
    obtain ⟨is, hl, hp⟩ := performs_of_used hu
    have hone : lowerAll [o] = is := by simp [lowerAll, hl]
    rw [hone] at hc ⊢
    exact hp m slots hc hs he

end Activation

end OnePass.Arm64
