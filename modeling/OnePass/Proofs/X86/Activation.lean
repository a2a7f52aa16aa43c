import OnePass.Proofs.Compiler.Targets
import OnePass.Proofs.Machine.Realization
import OnePass.Proofs.X86.Computation

/-!
# An activation of an x86-64 function

From its prologue to its epilogue a function stands in one frame: values are in the slots below it,
the caller's frame pointer is saved in it, and the registers that callers rely on are untouched.
-/

set_option autoImplicit false

namespace OnePass.X86

def view (m : Machine) (slots : List UInt64) : Native.View where
  word n := (((Gp.ofName? n).filter Gp.volatile).map m.get).getD 0
  double n := ((Xmm.ofName? n).map m.getX).getD ⟨0⟩
  slots := slots
  memory := m.ram
  free := m.free

/-- What a routine keeps: the place to go on, the registers that callers rely on, and the stack of
its callers between its return address and `top`. -/
structure Kept (top : UInt64) (m m' : Machine) : Prop where
  position : m'.position = m.position
  registers : ∀ r : Gp, r.volatile = false → m'.get r = m.get r
  stack : ∀ a : UInt64, (m.get .rsp).toNat + 8 ≤ a.toNat → a.toNat < top.toNat → m'.ram a = m.ram a

def Machine.calling (m : Machine) (p : Nat) (target ret : UInt64) : Machine :=
  (((m.set .r11 target).moveTo p).adjust (-8)).storeWord (m.get .rsp - 8) ret

def Gp.preserved (r : Gp) : Bool := r.index.val ∈ [3, 12, 13, 14, 15]

theorem Gp.not_volatile {r : Gp} (h : r.preserved = true) : r.volatile = false := by
  obtain ⟨i⟩ := r
  revert h i
  decide

def Instr.Calls : Resolved → Prop
  | .call _ => True
  | _ => False

def Instr.stores (m : Machine) : Resolved → List UInt64
  | .pushRbp => [m.get .rsp - 8]
  | .storeRsp _ => [m.get .rsp]
  | .storeRspSd _ => [m.get .rsp]
  | _ => []

structure Restored (entry m : Machine) : Prop where
  rsp : m.get .rsp = entry.get .rsp
  rbp : m.get .rbp = entry.get .rbp
  preserved : ∀ r : Gp, r.preserved = true → m.get r = entry.get r

theorem rsp_calling (m : Machine) (p : Nat) (target ret : UInt64) :
    (m.calling p target ret).get .rsp = m.get .rsp - 8 := by
  rw [UInt64.sub_eq_add_neg]
  simp +decide only [Machine.calling, Machine.get_storeWord, Machine.get_adjust,
    Machine.get_moveTo, Machine.get_set, if_true, if_false]

theorem get_calling {m : Machine} {p : Nat} {target ret : UInt64} {r : Gp} (h : .r11 ≠ r)
    (hsp : .rsp ≠ r) : (m.calling p target ret).get r = m.get r := by
  simp only [Machine.calling, Machine.get_storeWord, Machine.get_adjust, Machine.get_moveTo,
    Machine.get_set, if_neg h, if_neg hsp]

theorem stuck_of_fetch {world : World Machine} {base : UInt64} {code : Array UInt8} {m : Machine}
    (h : fetch code m = none) : step world base code m = .stuck := by
  have hd := Option.map_eq_none_iff.1 h
  simp only [step, hd]

/-- An instruction other than a call changes no memory but the words that it stores. -/
theorem ram_of_execute {world : World Machine} {base : UInt64} {m m' : Machine} {i : Resolved}
    (hcall : ¬i.Calls) (hx : execute world base m i = .running m') {a : UInt64}
    (ha : ∀ w ∈ Instr.stores m i, w.toNat + 8 ≤ 0x10000000000000000 ∧
      (a.toNat < w.toNat ∨ w.toNat + 8 ≤ a.toNat)) : m'.ram a = m.ram a := by
  cases i with
  | call r => exact absurd trivial hcall
  | pushRbp | storeRsp r | storeRspSd x =>
    cases hx
    obtain ⟨hlt, hout⟩ := ha _ List.mem_cons_self
    exact Ram.storeWord_outside _ _ hlt hout
  | ret => cases hx
  | idiv s =>
    simp only [execute] at hx
    split at hx
    · cases hx
      rfl
    · cases hx
  | jump opcode distance =>
    simp only [execute] at hx
    split at hx
    · split at hx
      · cases hx
        rfl
      · cases hx
    · cases hx
      rfl
    · cases hx
  | _ =>
    cases hx
    rfl

theorem stores_moveTo (m : Machine) (p : Nat) (i : Resolved) :
    Instr.stores (m.moveTo p) i = Instr.stores m i := by
  cases i <;> rfl

theorem memory_of_step {world : World Machine} {base : UInt64} {code : Array UInt8}
    {s s' : Machine} (hs : step world base code s = .running s')
    (hcall : ∀ i, fetch code s = some i → ¬i.Calls) (a : UInt64)
    (ha : ∀ i, fetch code s = some i → ∀ w ∈ Instr.stores s i,
      w.toNat + 8 ≤ 0x10000000000000000 ∧ (a.toNat < w.toNat ∨ w.toNat + 8 ≤ a.toNat)) :
    s'.ram a = s.ram a := by
  cases hf : fetch code s with
  | none =>
    rw [stuck_of_fetch hf] at hs
    cases hs
  | some i =>
    obtain ⟨p, hp⟩ := step_of_fetch world base hf
    exact ram_of_execute (m := s.moveTo p) (hcall i hf) (hp.symm.trans hs)
      (stores_moveTo s p i ▸ ha i hf)

section Views

variable {m m' : Machine}

theorem word_view {n : Text} {r : Gp} (h : Gp.ofName? n = some r) (hr : r.volatile = true)
    (m : Machine) (slots : List UInt64) : (view m slots).word n = m.get r := by
  simp [view, h, hr, Option.filter]

theorem double_view {n : Text} {x : Xmm} (h : Xmm.ofName? n = some x) (m : Machine)
    (slots : List UInt64) : (view m slots).double n = m.getX x := by
  simp [view, h]

theorem word_view_congr {slots slots' : List UInt64} {n : Text}
    (h : ∀ r : Gp, Gp.ofName? n = some r → r.volatile = true → m'.get r = m.get r) :
    (view m' slots').word n = (view m slots).word n := by
  simp only [view]
  cases hn : Gp.ofName? n with
  | none => rfl
  | some r => cases hr : r.volatile <;> simp [Option.filter, hr, h r hn]

theorem double_view_congr {slots slots' : List UInt64} {n : Text}
    (h : ∀ x, Xmm.ofName? n = some x → m'.getX x = m.getX x) :
    (view m' slots').double n = (view m slots).double n := by
  simp only [view]
  cases hn : Xmm.ofName? n with
  | none => rfl
  | some x => simp [h x hn]

theorem view_congr (slots : List UInt64)
    (hg : ∀ r : Gp, r.volatile = true → m'.get r = m.get r) (hx : ∀ x, m'.getX x = m.getX x)
    (hram : m'.ram = m.ram) (hfree : m'.free = m.free) : view m' slots = view m slots := by
  have hw : (view m' slots).word = (view m slots).word :=
    funext fun _ => word_view_congr fun r _ hr => hg r hr
  have hd : (view m' slots).double = (view m slots).double :=
    funext fun _ => double_view_congr fun x _ => hx x
  simp only [view, Native.View.mk.injEq] at hw hd ⊢
  exact ⟨hw, hd, trivial, hram, hfree⟩

end Views

def processor : Native.Processor Machine Resolved (Array UInt8) where
  target := target
  operand := by decide
  floatOperand := by decide
  secondArgument := by decide
  view := view
  view_eq _ _ := rfl
  position := Machine.position
  stackPointer m := m.get .rsp
  framePointer m := m.get .rbp
  load bs := some bs.toArray
  unit := 1
  unit_pos := Nat.one_pos
  fetch := fetch
  step := step
  calls := Instr.Calls
  stores := Instr.stores
  memory := memory_of_step
  rise := 8
  rise_le := by decide
  calling := Machine.calling
  stackPointer_calling := rsp_calling
  arguments_calling _ _ _ _ :=
    ⟨word_view_congr fun r hr _ => get_calling (by rintro rfl; cases hr) (by rintro rfl; cases hr),
      word_view_congr fun r hr _ => get_calling (by rintro rfl; cases hr) (by rintro rfl; cases hr),
      rfl, rfl⟩
  free_calling _ _ _ _ := rfl
  memory_calling m p a ret hlt b hb := by
    rw [rsp_calling] at hlt hb
    exact Ram.storeWord_outside _ _ (by omega) (by omega)
  kept := Kept
  restored := Restored

abbrev Activation := Native.Activation processor

namespace Activation

variable (A : Activation)

theorem toNat_frame : A.frame.toNat = (A.entry.get .rsp).toNat - 8 :=
    Native.Activation.toNat_frame A

theorem frame_space : 16 * A.limit + 8 ≤ A.frame.toNat := by
  have h : 16 * A.limit + 16 ≤ A.frame.toNat + 8 := Native.Activation.frame_space A
  omega

structure Stands (m : Machine) (slots : List UInt64) : Prop where
  frame : m.get .rbp = A.frame
  top : m.get .rsp = stackTop A.frame slots.length
  depth : slots.length ≤ A.limit
  slots : Slots m.ram A.frame slots
  saved : m.ram.word A.frame = A.entry.get .rbp
  preserved : ∀ r : Gp, r.preserved = true → m.get r = A.entry.get r

variable {A} {m m' : Machine} {slots : List UInt64}

theorem Stands.of_undisturbed (h : A.Stands m slots) (hu : Undisturbed Gp.volatile m m') :
    A.Stands m' slots where
  frame := (hu.kept _ rfl).trans h.frame
  top := (hu.kept _ rfl).trans h.top
  depth := h.depth
  slots := hu.ram ▸ h.slots
  saved := hu.ram ▸ h.saved
  preserved r hr := (hu.kept r (Gp.not_volatile hr)).trans (h.preserved r hr)

theorem safe_of_mild {s : Machine} {i : Resolved} (hi : i.Mild Gp.volatile) : A.Safe s i := by
  constructor
  · intro hc
    cases i <;> first | exact hi.elim | exact hc.elim
  · intro a ha
    cases i <;> first | exact hi.elim | cases ha

theorem Stands.level (h : A.Stands m slots) : A.Level slots.length m := by
  have hspace := A.frame_space
  have hdepth := h.depth
  have htop := toNat_stackTop A.frame slots.length (by omega)
  refine ⟨h.frame, ?_⟩
  change (m.get .rsp).toNat + _ = _
  rw [h.top, htop]
  omega

theorem visits_of_computing (h : A.Stands m slots) {start stop : Nat} {s : Machine}
    (hc : Computing Gp.volatile A.code start stop m s) :
    A.Visits start stop slots.length s where
  low := hc.low
  high := hc.high
  begins _ := (h.of_undisturbed hc.same).level
  safe i hi := by
    obtain ⟨j, hj, hm⟩ := hc.mild
    obtain rfl : j = i := Option.some.inj (hj.symm.trans hi)
    exact safe_of_mild hm

theorem leads_of_computes (h : A.Stands m slots) {start stop : Nat} {result : Machine → Prop}
    (hc : Computes Gp.volatile A.world A.base A.code start stop m result m) :
    A.Leads (A.Visits start stop slots.length)
      (fun m' => m'.position = stop ∧ A.Stands m' slots ∧ Undisturbed Gp.volatile m m' ∧
        result m') m :=
  OnePass.Leads.mono hc (fun _ hl => hl.elim) (fun _ hs => visits_of_computing h hs)
    fun _ hd => ⟨hd.1, h.of_undisturbed hd.2.1, hd.2⟩

end Activation

end OnePass.X86
