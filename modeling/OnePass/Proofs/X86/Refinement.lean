import OnePass.Proofs.X86.Activation
import OnePass.Proofs.X86.Integer
import OnePass.Proofs.X86.Saturation

/-!
# Operations on x86-64

The instructions of every operation that compilation uses do what the operation promises, and
execute nothing that leaves the stack of the function.
-/

set_option autoImplicit false

namespace OnePass.X86

namespace Activation

open Native (Used)

variable {A : Activation} {m m' : Machine} {slots : List UInt64}

def Performs (A : Activation) (o : Operation) (is : List Resolved) : Prop :=
  ∀ (m : Machine) (slots : List UInt64), CodeAt A.code m.position is → A.Stands m slots →
    A.context.Enabled o (view m slots) →
    A.Leads (A.Visits m.position (m.position + codeSize is) slots.length)
      (fun m' => m'.position = m.position + codeSize is ∧
        ∃ slots', A.Stands m' slots' ∧ A.context.Effect o (view m slots) (view m' slots')) m

theorem quiet_of_undisturbed (h : Undisturbed Gp.volatile m m') (slots slots' : List UInt64) :
    A.context.Quiet (view m slots) (view m' slots') :=
  ⟨h.free, fun a _ => congrFun h.ram a⟩

theorem performs_of_computes {o : Operation} {is : List Resolved}
    (result : Machine → List UInt64 → Machine → Prop)
    (hc : ∀ m slots, CodeAt A.code m.position is → Computes Gp.volatile A.world A.base A.code
      m.position (m.position + codeSize is) m (result m slots) m)
    (he : ∀ m m' slots, Undisturbed Gp.volatile m m' → result m slots m' →
      A.context.Effect o (view m slots) (view m' slots)) : A.Performs o is := by
  intro m slots hcode hs _
  refine (leads_of_computes hs (hc m slots hcode)).mono (fun _ h => h) (fun _ h => h) ?_
  rintro m' ⟨hp, hs', hu, hr⟩
  exact ⟨hp, slots, hs', he m m' slots hu hr⟩

theorem performs_word {o : Operation} {is : List Resolved} {reg : Text} {r : Gp}
    {f : Native.View → UInt64} (hr : Gp.ofName? reg = some r) (hv : r.volatile = true)
    (ho : ∀ v v', v'.word reg = f v ∧ v'.slots = v.slots ∧ A.context.Quiet v v' →
      A.context.Effect o v v')
    (hc : ∀ m slots, CodeAt A.code m.position is → Computes Gp.volatile A.world A.base A.code
      m.position (m.position + codeSize is) m (fun m' => m'.get r = f (view m slots)) m) :
    A.Performs o is :=
  performs_of_computes _ hc fun _ _ _ hu h =>
    ho _ _ ⟨(word_view hr hv _ _).trans h, rfl, quiet_of_undisturbed hu _ _⟩

theorem performs_double {o : Operation} {is : List Resolved} {freg : Text} {x : Xmm}
    {f : Native.View → Binary64} (hx : Xmm.ofName? freg = some x)
    (ho : ∀ v v', v'.double freg = f v ∧ v'.slots = v.slots ∧ A.context.Quiet v v' →
      A.context.Effect o v v')
    (hc : ∀ m slots, CodeAt A.code m.position is → Computes Gp.volatile A.world A.base A.code
      m.position (m.position + codeSize is) m (fun m' => m'.getX x = f (view m slots)) m) :
    A.Performs o is :=
  performs_of_computes _ hc fun _ _ _ hu h =>
    ho _ _ ⟨(double_view hx _ _).trans h, rfl, quiet_of_undisturbed hu _ _⟩

section Registers

variable {reg reg' freg freg' : Text} {r r' : Gp} {x x' : Xmm} (hr : Gp.ofName? reg = some r)
  (hv : r.volatile = true) (hr' : Gp.ofName? reg' = some r') (hv' : r'.volatile = true)
  (hx : Xmm.ofName? freg = some x) (hx' : Xmm.ofName? freg' = some x')

include hr hv in
theorem performs_loadImmediate (value : UInt64) :
    A.Performs (.loadImmediate reg value) [.movImm r value] :=
  performs_word hr hv (f := fun _ => value) (fun _ _ h => h) fun m slots hc =>
    (Point.first hc).plain trivial hv rfl rfl fun p => p.finish (by simp)

include hx in
theorem performs_loadFloat (address : UInt64) :
    A.Performs (.loadFloat freg address) [.movImm .r11 address, .loadSd x .r11] :=
  performs_double hx (f := fun v => ⟨v.memory.word address⟩) (fun _ _ h => h) fun m slots hc =>
    (Point.first hc).plain trivial rfl rfl rfl fun p =>
      p.plain rfl trivial rfl rfl fun p => p.finish (by simp [view])

include hr hv in
theorem performs_move_self : A.Performs (.move reg reg) [] :=
  performs_word hr hv (f := fun v => v.word reg) (fun _ _ h => h) fun m slots hc =>
    (Point.first hc).finish (word_view hr hv m slots).symm

include hx in
theorem performs_moveFloat_self : A.Performs (.moveFloat freg freg) [] :=
  performs_double hx (f := fun v => v.double freg) (fun _ _ h => h) fun m slots hc =>
    (Point.first hc).finish (double_view hx m slots).symm

include hr hv hx in
theorem performs_floatToInt (hne : x ≠ ⟨15⟩) :
    A.Performs (.floatToInt reg freg) (saturationCode r x) :=
  performs_word hr hv (f := fun v => (v.double freg).saturate.toUInt64) (fun _ _ h => h)
    fun m slots hc => by
      rw [double_view hx]
      exact (saturation_computes hv hne (Point.first hc)).mono (fun _ h => h) (fun _ h => h)
        fun _ h => ⟨h.1, h.2.1, h.2.2.1⟩

include hr hv in
theorem performs_intNegate : A.Performs (.intNegate reg) [.neg r] :=
  performs_word hr hv (f := fun v => -v.word reg) (fun _ _ h => h) fun m slots hc =>
    (Point.first hc).plain trivial hv rfl rfl fun p => p.finish (by simp [word_view hr hv])

include hx in
theorem performs_floatNegate (hne : x ≠ ⟨15⟩) :
    A.Performs (.floatNegate freg)
      [.movImm .r11 0x8000000000000000, .movq ⟨15⟩ .r11, .xorpd x ⟨15⟩] :=
  performs_double hx (f := fun v => (v.double freg).neg) (fun _ _ h => h) fun m slots hc =>
    (Point.first hc).plain trivial rfl rfl rfl fun p =>
      p.plain trivial trivial rfl rfl fun p =>
        p.plain trivial trivial rfl rfl fun p => p.finish (by
          simp [double_view hx, Ne.symm hne, Binary64.neg])

include hr hv hr' hv' in
theorem performs_arithmetic {op : Operator} {i : Resolved} (hi : i.Encodable)
    (hm : i.Mild Gp.volatile)
    (hx : ∀ s : Machine, execute A.world A.base s i = .running (s.set r
      (op.onInts (s.get r).toInt64 (s.get r').toInt64).toUInt64).clobberFlags) :
    A.Performs (.intBinary op reg reg') [i] :=
  performs_word hr hv
    (f := fun v => (op.onInts (v.word reg).toInt64 (v.word reg').toInt64).toUInt64)
    (fun _ _ h => h) fun m slots hc =>
      (Point.first hc).plain hi hm (hx _) rfl fun p => p.finish (by
        simp [word_view hr hv, word_view hr' hv'])

include hr' hv' in
theorem performs_division {op : Operator} (hop : op = .div ∨ op = .mod) (hd : r' ≠ .rdx) :
    A.Performs (.intBinary op rax reg') (divisionCode op r') :=
  performs_word (r := .rax) (by decide) rfl
    (f := fun v => (op.onInts (v.word rax).toInt64 (v.word reg').toInt64).toUInt64)
    (fun _ _ h => h) fun m slots hc => by
      rw [word_view hr' hv', word_view (r := .rax) (by decide) rfl]
      exact division_computes hop rfl rfl hd (Point.first hc)

include hr hv hr' hv' in
theorem performs_power (hd : r ≠ .rdx) (hs : r' ≠ .rdx) (hne : r ≠ r') :
    A.Performs (.intBinary .pow reg reg') (powerCode r r') :=
  performs_word hr hv
    (f := fun v => (Operator.pow.onInts (v.word reg).toInt64 (v.word reg').toInt64).toUInt64)
    (fun _ _ h => h) fun m slots hc => by
      rw [word_view hr hv, word_view hr' hv']
      exact power_computes hv hv' rfl hd hs hne (Point.first hc)

include hx hx' in
theorem performs_floatBinary {op : Operator} {sse : SseOp}
    (hop : ∀ D, sse.apply D = op.onFloats D) :
    A.Performs (.floatBinary op freg freg') [.sse sse x x'] :=
  performs_double hx (f := fun v => op.onFloats A.world.doubles (v.double freg) (v.double freg'))
    (fun _ _ h => h) fun m slots hc =>
      (Point.first hc).plain trivial trivial rfl rfl fun p => p.finish (by
        simp [double_view hx, double_view hx', hop])

include hx hr hv in
theorem performs_intToFloat : A.Performs (.intToFloat freg reg) [.cvtsi2sd x r] := by
  refine performs_of_computes
    (fun m _ m' => m'.getX x = A.world.doubles.ofInt (m.get r).toInt64 ∧
      (∀ y, y ≠ x → m'.getX y = m.getX y) ∧ ∀ s, m'.get s = m.get s) (fun m slots hc => ?_)
    fun m m' slots hu h => ⟨?_, ?_, ?_, rfl, quiet_of_undisturbed hu _ _⟩
  · refine (Point.first hc).plain trivial trivial rfl rfl fun p => p.finish ⟨by simp, ?_, by simp⟩
    intro y hy
    simp [Ne.symm hy]
  · rw [double_view hx, word_view hr hv, h.1]
    rfl
  · intro n hn
    exact double_view_congr fun y hy =>
      h.2.1 y fun he => hn (Xmm.ofName?_inj hy (he ▸ hx))
  · exact funext fun n => word_view_congr fun s _ _ => h.2.2 s

end Registers

theorem safe_of_fetch {i : Resolved} {is : List Resolved} {s : Machine}
    (hc : CodeAt A.code s.position (i :: is)) (hi : i.Encodable) (hs : A.Safe s i.plain)
    (j : Resolved) (hj : fetch A.code s = some j) : A.Safe s j := by
  rw [fetch_at hc hi] at hj
  exact Option.some.inj hj ▸ hs

theorem next_of_execute {i : Resolved} {is : List Resolved} {s s' : Machine}
    (hc : CodeAt A.code s.position (i :: is)) (hi : i.Encodable)
    (hx : execute A.world A.base (s.advance i.encode.length) i.plain = .running s') :
    successor (step A.world A.base A.code) s = some s' :=
  successor_of_running ((step_at hc hi).trans hx)

theorem leads_step (i : Resolved) (is : List Resolved) {start stop depth : Nat}
    {done : Machine → Prop} {s s' : Machine} (hc : CodeAt A.code s.position (i :: is))
    (hi : i.Encodable)
    (hx : execute A.world A.base (s.advance i.encode.length) i.plain = .running s')
    (hlow : start ≤ s.position) (hhigh : s.position < stop)
    (hbegin : s.position = start → A.Level depth s) (hsafe : A.Safe s i.plain)
    (k : A.Leads (A.Visits start stop depth) done s') :
    A.Leads (A.Visits start stop depth) done s :=
  .step ⟨hlow, hhigh, hbegin, safe_of_fetch hc hi hsafe⟩ (next_of_execute hc hi hx) k

theorem Stands.push (h : A.Stands m slots) (hlt : slots.length < A.limit) (v : UInt64)
    (hrsp : m'.get .rsp = stackTop A.frame (slots.length + 1))
    (hram : m'.ram = m.ram.storeWord (stackTop A.frame (slots.length + 1)) v)
    (hkept : ∀ r : Gp, r.volatile = false → r ≠ .rsp → m'.get r = m.get r) :
    A.Stands m' (v :: slots) := by
  have hspace := A.frame_space
  have hf := A.toNat_frame
  have hlt' := (A.entry.get .rsp).toNat_lt
  have htop := toNat_stackTop A.frame (slots.length + 1) (by omega)
  refine ⟨(hkept _ rfl (by decide)).trans h.frame, hrsp, hlt, ?_, ?_, fun r hr => ?_⟩
  · exact hram ▸ h.slots.push v (by omega)
  · rw [hram, Ram.word_storeWord_outside _ _ (by omega) (by omega) (by omega), h.saved]
  · rw [hkept r (Gp.not_volatile hr) (by rintro rfl; cases hr), h.preserved r hr]

/-- What a store into the next slot changes is the stack's own. -/
theorem quiet_push (hlt : slots.length < A.limit) {v : UInt64} {slots' : List UInt64}
    (hfree : m'.free = m.free)
    (hram : m'.ram = m.ram.storeWord (stackTop A.frame (slots.length + 1)) v) :
    A.context.Quiet (view m slots) (view m' slots') := by
  have hspace := A.frame_space
  have hf := A.toNat_frame
  have hlt' := (A.entry.get .rsp).toNat_lt
  have htop := toNat_stackTop A.frame (slots.length + 1) (by omega)
  refine ⟨hfree, fun a ha => ?_⟩
  simp only [view, hram]
  apply Ram.storeWord_outside _ _ (by omega)
  simp only [Native.Activation.context, processor] at ha
  omega

theorem leads_push {i : Resolved} {v : UInt64} (hs : A.Stands m slots)
    (hlt : slots.length < A.limit) (hc : CodeAt A.code m.position [.subRsp stackSlotSize, i])
    (hi : i.Encodable) (hstore : ∀ s, Instr.stores s i.plain = [s.get .rsp])
    (hcall : ¬i.plain.Calls)
    (hx : ∀ s : Machine, (∀ r : Gp, r.volatile = true → s.get r = m.get r) →
      (∀ x, s.getX x = m.getX x) →
      execute A.world A.base s i.plain = .running (s.storeWord (s.get .rsp) v)) :
    A.Leads
      (A.Visits m.position (m.position + codeSize [.subRsp stackSlotSize, i]) slots.length)
      (fun m' => m'.position = m.position + codeSize [.subRsp stackSlotSize, i] ∧
        A.Stands m' (v :: slots) ∧ A.context.Quiet (view m slots) (view m' (v :: slots))) m := by
  have h16 : signExtend stackSlotSize = 16 := by decide
  have hi0 := i.encode_length_pos
  have hrsp : m.get .rsp - 16 = stackTop A.frame (slots.length + 1) := by
    rw [hs.top, stackTop_succ]
  have hc' := CodeAt.right [.subRsp stackSlotSize] hc
  refine leads_step _ _ hc trivial rfl (Nat.le_refl _) (by simp; omega) (fun _ => hs.level)
    (.of_still id rfl) ?_
  have hneg : m.get .rsp + -16 = stackTop A.frame (slots.length + 1) := by
    rw [← UInt64.sub_eq_add_neg, hrsp]
  have hspace := A.frame_space
  have hframe := A.toNat_frame
  have htop := toNat_stackTop A.frame (slots.length + 1) (by omega)
  refine leads_step _ [] (by simpa using hc') hi (hx _ ?_ ?_) (by simp) (by simp; omega)
    (fun h => ?_) ⟨fun hc => absurd hc hcall, fun a ha => ?_⟩ (.done ⟨?_, ?_, ?_⟩)
  · intro r hr
    have hne : Gp.rsp ≠ r := by
      rintro rfl
      cases hr
    simp [hne]
  · simp
  · have := (Instr.subRsp stackSlotSize : Resolved).encode_length_pos
    change m.position + (Instr.subRsp stackSlotSize : Resolved).encode.length = m.position at h
    omega
  · change a ∈ Instr.stores _ _ at ha
    rw [hstore, List.mem_singleton] at ha
    subst ha
    change A.frame.toNat - 16 * A.limit ≤ _ ∧ _ ≤ (A.entry.get .rsp).toNat
    simp only [Machine.get_clobberFlags, Machine.get_adjust, h16, if_true,
      Machine.get_advance, hneg]
    omega
  · simp [Nat.add_assoc]
  · refine hs.push hlt v (by simp [h16, hneg]) (by simp [h16, hneg]) fun r _ hr => ?_
    simp [Ne.symm hr]
  · exact quiet_push (v := v) hlt (by simp) (by simp [h16, hneg])

theorem performs_push {reg : Text} {r : Gp} (hr : Gp.ofName? reg = some r)
    (hv : r.volatile = true) : A.Performs (.push reg) [.subRsp stackSlotSize, .storeRsp r] := by
  intro m slots hc hs hlt
  refine (leads_push (v := m.get r) hs hlt hc trivial (fun _ => rfl) id
    fun s hg _ => ?_).mono (fun _ h => h) (fun _ h => h) ?_
  · simp only [Instr.plain, execute, hg r hv]
  · rintro m' ⟨hp, hs', hq⟩
    exact ⟨hp, _, hs', by rw [word_view hr hv]; rfl, hq⟩

theorem performs_pushFloat {freg : Text} {x : Xmm} (hx : Xmm.ofName? freg = some x) :
    A.Performs (.pushFloat freg) [.subRsp stackSlotSize, .storeRspSd x] := by
  intro m slots hc hs hlt
  refine (leads_push (v := (m.getX x).bits) hs hlt hc trivial (fun _ => rfl) id
    fun s _ hg => ?_).mono (fun _ h => h) (fun _ h => h) ?_
  · simp only [Instr.plain, execute, hg x]
  · rintro m' ⟨hp, hs', hq⟩
    exact ⟨hp, _, hs', by rw [double_view hx]; rfl, hq⟩

theorem Stands.top_eq {v : UInt64} (h : A.Stands m (v :: slots)) : m.top = v := by
  rw [Machine.top, h.top]
  exact h.slots.1

theorem Stands.pop {v : UInt64} (h : A.Stands m (v :: slots)) (hrsp : m'.get .rsp = m.get .rsp + 16)
    (hram : m'.ram = m.ram) (hkept : ∀ r : Gp, r.volatile = false → r ≠ .rsp → m'.get r = m.get r) :
    A.Stands m' slots where
  frame := (hkept _ rfl (by decide)).trans h.frame
  top := by
    rw [hrsp, h.top, List.length_cons, stackTop_succ, UInt64.sub_add_cancel]
  depth := Nat.le_of_succ_le h.depth
  slots := hram ▸ h.slots.2
  saved := hram ▸ h.saved
  preserved r hr := by
    rw [hkept r (Gp.not_volatile hr) (by rintro rfl; cases hr), h.preserved r hr]

theorem leads_pop {i : Resolved} {v : UInt64} {s : Machine} (hs : A.Stands m (v :: slots))
    (hc : CodeAt A.code m.position [i, .addRsp stackSlotSize]) (hi : i.Encodable)
    (hstore : Instr.stores m i.plain = []) (hcall : ¬i.plain.Calls)
    (hx : execute A.world A.base (m.advance i.encode.length) i.plain = .running s)
    (hp : s.position = m.position + i.encode.length) (hu : Undisturbed Gp.volatile m s) :
    A.Leads
      (A.Visits m.position (m.position + codeSize [i, .addRsp stackSlotSize])
        (slots.length + 1))
      (fun m' => m'.position = m.position + codeSize [i, .addRsp stackSlotSize] ∧
        A.Stands m' slots ∧ A.context.Quiet (view m (v :: slots)) (view m' slots) ∧
        (∀ r : Gp, r.volatile = true → m'.get r = s.get r) ∧ ∀ x, m'.getX x = s.getX x) m := by
  have h16 : signExtend stackSlotSize = 16 := by decide
  have hi0 := i.encode_length_pos
  have ha0 := (Instr.addRsp stackSlotSize : Resolved).encode_length_pos
  have hc' := CodeAt.right [i] hc
  refine leads_step _ _ hc hi hx (Nat.le_refl _) (by simp; omega) (fun _ => hs.level)
    ⟨fun hc => absurd hc hcall, fun a ha => ?_⟩ ?_
  · change a ∈ Instr.stores m i.plain at ha
    rw [hstore] at ha
    cases ha
  refine leads_step (.addRsp stackSlotSize) [] (by simpa [hp] using hc') trivial rfl (by omega)
    (by simp; omega)
    (fun h => by omega) (.of_still id rfl)
    (.done ⟨?_, ?_, ?_, ?_, ?_⟩)
  · simp [hp, Nat.add_assoc]
  · refine hs.pop (by simp [h16, hu.kept .rsp rfl]) (by simp [hu.ram]) fun r hr hne => ?_
    simp [Ne.symm hne, hu.kept r hr]
  · exact ⟨by simpa [view] using hu.free, fun a _ => by simp [view, hu.ram]⟩
  · intro r hr
    have hne : Gp.rsp ≠ r := by
      rintro rfl
      cases hr
    simp [hne]
  · simp

theorem performs_pop {reg : Text} {r : Gp} (hr : Gp.ofName? reg = some r)
    (hv : r.volatile = true) : A.Performs (.pop reg) [.loadRsp r, .addRsp stackSlotSize] := by
  intro m slots hc hs he
  obtain ⟨v, rest, rfl⟩ := List.exists_cons_of_ne_nil he
  refine (leads_pop hs hc trivial rfl id rfl rfl ?_).mono (fun _ h => h) (fun _ h => h) ?_
  · exact (Undisturbed.advance m _).trans (.set hv _ _)
  · rintro m' ⟨hp, hs', hq, hg, hgx⟩
    refine ⟨hp, rest, hs', ?_, fun n hn => ?_, ?_, hq⟩
    · rw [word_view hr hv, hg r hv]
      simp [view, hs.top_eq]
    · exact word_view_congr fun r' hn' hv' => by
        rw [hg r' hv']
        have hne : r ≠ r' := fun h => hn (Gp.ofName?_inj hn' (h ▸ hr))
        simp [hne]
    · exact funext fun n => double_view_congr fun x _ => by simp [hgx x]

theorem performs_popFloat {freg : Text} {x : Xmm} (hx : Xmm.ofName? freg = some x) :
    A.Performs (.popFloat freg) [.loadRspSd x, .addRsp stackSlotSize] := by
  intro m slots hc hs he
  obtain ⟨v, rest, rfl⟩ := List.exists_cons_of_ne_nil he
  refine (leads_pop hs hc trivial rfl id rfl rfl ?_).mono (fun _ h => h) (fun _ h => h) ?_
  · exact .of_gp rfl rfl rfl
  · rintro m' ⟨hp, hs', hq, hg, hgx⟩
    refine ⟨hp, rest, hs', ?_, fun n hn => ?_, ?_, hq⟩
    · rw [double_view hx, hgx x]
      simp [view, hs.top_eq]
    · exact double_view_congr fun y hn' => by
        rw [hgx y]
        have hne : x ≠ y := fun h => hn (Xmm.ofName?_inj hn' (h ▸ hx))
        simp [hne]
    · exact funext fun n => word_view_congr fun r _ hv => by simp [hg r hv]

theorem call_eq (world : World Machine) (m : Machine) (p : Nat) (target ret : UInt64) :
    call world ((m.set .r11 target).moveTo p) target ret =
      match world.routine target (m.calling p target ret) with
      | some m' => .running (m'.adjust 8)
      | none => .stuck := by
  have hrsp : ((m.set .r11 target).moveTo p).get .rsp = m.get .rsp := by simp +decide
  rw [call, hrsp]
  rfl

/-- A call as its caller sees it: the position, the registers and the stack are as before. -/
theorem kept_call {top target ret : UInt64} {p : Nat} (h : Kept top (m.calling p target ret) m')
    (h8 : 8 ≤ (m.get .rsp).toNat) :
    m'.position = p ∧ (∀ r : Gp, r.volatile = false → (m'.adjust 8).get r = m.get r) ∧
      ∀ a : UInt64, (m.get .rsp).toNat ≤ a.toNat → a.toNat < top.toNat → m'.ram a = m.ram a := by
  have hback : m.get .rsp + -8 + 8 = m.get .rsp := by
    rw [← UInt64.sub_eq_add_neg, UInt64.sub_add_cancel]
  have hlow : (m.get .rsp - 8).toNat = (m.get .rsp).toNat - 8 :=
    UInt64.toNat_sub_of_le _ _ (UInt64.le_iff_toNat_le.2 h8)
  have hlt := (m.get .rsp).toNat_lt
  obtain ⟨hp, hg, hst⟩ := h
  have hrsp := hg .rsp rfl
  simp +decide only [Machine.calling, Machine.get_storeWord, Machine.get_adjust, if_true,
    Machine.get_moveTo, Machine.get_set, if_false] at hg hrsp hst
  refine ⟨hp, fun r hr => ?_, fun a hl hu => ?_⟩
  · have hne : Gp.r11 ≠ r := by
      rintro rfl
      cases hr
    have hr' := hg r hr
    by_cases he : Gp.rsp = r
    · subst he
      simp [hrsp, hback]
    · simpa [he, hne] using hr'
  · have ha := hst a (by
      rw [← UInt64.sub_eq_add_neg, hlow]
      omega) hu
    rw [ha]
    exact Ram.storeWord_outside _ _ (by omega) (by omega)

theorem view_adjust (m : Machine) (v : UInt64) (slots : List UInt64) :
    view (m.adjust v) slots = view m slots :=
  view_congr slots (fun r hr => by
    have hne : Gp.rsp ≠ r := by
      rintro rfl
      cases hr
    simp [hne]) (fun _ => rfl) rfl rfl

theorem Stands.call (h : A.Stands m slots)
    (hg : ∀ r : Gp, r.volatile = false → m'.get r = m.get r)
    (hm : ∀ a : UInt64, (m.get .rsp).toNat ≤ a.toNat → a.toNat < (A.entry.get .rsp).toNat →
      m'.ram a = m.ram a) : A.Stands m' slots := by
  have hspace := A.frame_space
  have hf := A.toNat_frame
  have hlt := (A.entry.get .rsp).toNat_lt
  have hd := h.depth
  have htop := toNat_stackTop A.frame slots.length (by omega)
  rw [← h.top] at htop
  refine ⟨(hg _ rfl).trans h.frame, (hg _ rfl).trans h.top, hd, ?_, ?_, fun r hr => ?_⟩
  · exact h.slots.congr (by omega) fun a hl hu => hm a (by omega) (by omega)
  · rw [← h.saved]
    apply Ram.word_congr
    intro i hi
    have ha := toNat_add_ofNat (a := A.frame) (i := i) (by omega)
    exact hm _ (by omega) (by omega)
  · rw [hg r (Gp.not_volatile hr), h.preserved r hr]

theorem leads_call (start depth : Nat) {q : Nat} {a : UInt64} (hs : A.Stands m slots)
    (he : A.context.Enabled (.call a) (view m slots)) (hc : CodeAt A.code q [.call .r11])
    (hq : start < q) :
    A.Leads (A.Visits start (q + codeSize [.call .r11]) depth)
      (fun m' => m'.position = q + codeSize [.call .r11] ∧ A.Stands m' slots ∧
        A.context.Effect (.call a) (view m slots) (view m' slots)) ((m.set .r11 a).moveTo q) := by
  have hspace := A.frame_space
  have hd := hs.depth
  have htop := toNat_stackTop A.frame slots.length (by omega)
  rw [← hs.top] at htop
  have hi0 := (Instr.call .r11 : Resolved).encode_length_pos
  have hrsp : ((m.set .r11 a).moveTo q).get .rsp = m.get .rsp := by simp +decide
  generalize hp : q + codeSize [Instr.call .r11] = p
  -- What the routine is given: the machine as it was, but for its address and the position.
  have hx : execute A.world A.base (((m.set .r11 a).moveTo q).advance
      (Instr.call .r11 : Resolved).encode.length) (.call .r11) =
      call A.world ((m.set .r11 a).moveTo p) a (A.base + UInt64.ofNat p) := by
    subst hp
    simp [execute, Machine.advance]
    rfl
  have hsafe : A.Safe ((m.set .r11 a).moveTo q) (.call .r11) :=
    ⟨fun _ => ⟨slots.length, hd, hrsp.trans hs.top⟩, List.forall_mem_nil _⟩
  have hlt : q < p := by
    rw [← hp]
    simp
    omega
  rw [call_eq] at hx
  cases hcall : A.world.routine a (m.calling p a (A.base + UInt64.ofNat p)) with
  | some m' =>
    rw [hcall] at hx
    refine leads_step _ _ hc trivial hx (Nat.le_of_lt hq) hlt
      (fun h => absurd h (Nat.ne_of_gt hq)) hsafe (.done ?_)
    obtain ⟨hkept, heff⟩ := Native.Activation.effect_of_call he hd hs.top hcall
    obtain ⟨hpos, hg, hmem⟩ := kept_call hkept (by omega)
    refine ⟨hpos, hs.call hg hmem, ?_⟩
    rw [view_adjust]
    exact heff
  | none =>
    rw [hcall] at hx
    have hstep : step A.world A.base A.code ((m.set .r11 a).moveTo q) = .stuck :=
      (step_at (i := .call .r11) (m := (m.set .r11 a).moveTo q) hc trivial).trans hx
    exact .lost ⟨Nat.le_of_lt hq, hlt, fun h => absurd h (Nat.ne_of_gt hq),
        safe_of_fetch (i := .call .r11) (s := (m.set .r11 a).moveTo q) hc trivial hsafe⟩
      (successor_of_stuck hstep) ⟨Native.Activation.not_total_of_call he hd hs.top hcall, hstep,
        .call .r11, fetch_at (i := .call .r11) hc trivial, trivial⟩

theorem performs_call (r : Routine) :
    A.Performs (.call (A.symbols.address r))
      [.movImm .r11 (A.symbols.address r), .call .r11] := by
  intro m slots hc hs he
  have hi0 := (Instr.movImm .r11 (A.symbols.address r) : Resolved).encode_length_pos
  have hc' := CodeAt.right [.movImm .r11 (A.symbols.address r)] hc
  refine leads_step _ _ hc trivial rfl (Nat.le_refl _) (by simp; omega) (fun _ => hs.level)
    (.of_still id rfl) ?_
  have hk := leads_call m.position slots.length hs he hc' (by simp; omega)
  rw [Nat.add_assoc, ← codeSize_append] at hk
  refine hk.mono (fun _ h => h) (fun _ h => h) ?_
  rintro m' ⟨hp, hs', heff⟩
  exact ⟨hp, slots, hs', heff⟩

/-- Every operation that compilation uses has instructions, and they perform it. -/
theorem performs_of_used {o : Operation} (h : Used ⟨roles, A.symbols⟩ o) :
    ∃ is, lower? o = some is ∧ A.Performs o is := by
  have hacc : Gp.ofName? roles.accumulator = some .rax := by decide
  have hop : Gp.ofName? roles.operand = some .rcx := by decide
  have hfirst : Gp.ofName? roles.firstArgument = some .rdi := by decide
  have hsecond : Gp.ofName? roles.secondArgument = some .rsi := by decide
  have hfacc : Xmm.ofName? roles.floatAccumulator = some .xmm0 := by decide
  have hfop : Xmm.ofName? roles.floatOperand = some .xmm1 := by decide
  cases h with
  | loadWord value => exact ⟨_, rfl, performs_loadImmediate hacc rfl value⟩
  | loadFloat address => exact ⟨_, rfl, performs_loadFloat hfacc address⟩
  | push => exact ⟨_, rfl, performs_push hacc rfl⟩
  | pushFloat => exact ⟨_, rfl, performs_pushFloat hfacc⟩
  | popAccumulator => exact ⟨_, rfl, performs_pop hacc rfl⟩
  | popOperand => exact ⟨_, rfl, performs_pop hop rfl⟩
  | popFirst => exact ⟨_, rfl, performs_pop hfirst rfl⟩
  | popSecond => exact ⟨_, rfl, performs_pop hsecond rfl⟩
  | popResult => exact ⟨_, rfl, performs_pop hacc rfl⟩
  | popFloatAccumulator => exact ⟨_, rfl, performs_popFloat hfacc⟩
  | popFloatOperand => exact ⟨_, rfl, performs_popFloat hfop⟩
  | popFloatResult => exact ⟨_, rfl, performs_popFloat hfacc⟩
  | moveResult => exact ⟨_, rfl, performs_move_self hacc rfl⟩
  | moveFloatResult => exact ⟨_, rfl, performs_moveFloat_self hfacc⟩
  | call r => exact ⟨_, rfl, performs_call r⟩
  | convertAccumulator => exact ⟨_, rfl, performs_intToFloat hacc rfl hfacc⟩
  | convertOperand => exact ⟨_, rfl, performs_intToFloat hop rfl hfop⟩
  | truncate => exact ⟨_, rfl, performs_floatToInt hacc rfl hfacc (by decide)⟩
  | intBinary op hk =>
    cases op with
    | add => exact ⟨_, rfl, performs_arithmetic hacc rfl hop rfl trivial rfl fun _ => rfl⟩
    | sub => exact ⟨_, rfl, performs_arithmetic hacc rfl hop rfl trivial rfl fun _ => rfl⟩
    | mul => exact ⟨_, rfl, performs_arithmetic hacc rfl hop rfl trivial rfl fun _ => rfl⟩
    | div => exact ⟨_, rfl, performs_division hop rfl (.inl rfl) (by decide)⟩
    | mod => exact ⟨_, rfl, performs_division hop rfl (.inr rfl) (by decide)⟩
    | pow => exact ⟨_, rfl, performs_power hacc rfl hop rfl (by decide) (by decide) (by decide)⟩
    | unknown => exact absurd rfl hk
  | floatBinary op hk =>
    rcases hk with rfl | rfl | rfl | rfl <;>
      exact ⟨_, rfl, performs_floatBinary hfacc hfop fun _ => rfl⟩
  | negate => exact ⟨_, rfl, performs_intNegate hacc rfl⟩
  | negateFloat => exact ⟨_, rfl, performs_floatNegate hfacc (by decide)⟩

/-- An operation that has no code does not touch the slots. -/
theorem shift_of_codeSize_eq_zero {symbols : Symbols} {o : Operation}
    (hu : Used ⟨roles, symbols⟩ o) (h : codeSize (lowerAll [o]) = 0) (d : Nat) :
    Native.shift d o = d := by
  cases hu <;> first | rfl | (dsimp only at h; exact absurd h (by decide))

def realization (A : Activation) : Native.Realization A where
  stands := A.Stands
  span os := codeSize (lowerAll os)
  span_append as bs := by rw [lowerAll_append, codeSize_append]
  span_prologue := by decide
  code p os := CodeAt A.code p (lowerAll os)
  code_append as bs h := by
    rw [lowerAll_append] at h
    exact ⟨h.left, h.right _⟩
  solid := shift_of_codeSize_eq_zero
  performs {o} hu m slots hc hs he := by
    obtain ⟨is, hl, hp⟩ := performs_of_used hu
    have hone : lowerAll [o] = is := by simp [lowerAll, hl]
    rw [hone] at hc ⊢
    exact hp m slots hc hs he

end Activation

end OnePass.X86
