import OnePass.Proofs.Arm64.Computation
import OnePass.Proofs.Compiler.Targets
import OnePass.Proofs.Machine.Realization

/-!
# An activation of an ARM64 function

From its prologue to its epilogue a function stands in one frame: values are in the slots below it,
the caller's frame pointer and return address are saved in it, and the registers that callers rely
on are untouched.
-/

set_option autoImplicit false

namespace OnePass.Arm64

def view (m : Machine) (slots : List UInt64) : Native.View where
  word n := (((Gp.ofName? n).filter Gp.volatile).map m.get).getD 0
  double n := ((Fp.ofName? n).map m.getF).getD ⟨0⟩
  slots := slots
  memory := m.ram
  free := m.free

/-- What a routine keeps: the place to go on, the stack pointer, the registers that callers rely on
and the stack of its callers up to `top`. -/
structure Kept (top : UInt64) (m m' : Machine) : Prop where
  position : m'.position = m.position
  sp : m'.sp = m.sp
  registers : ∀ r : Gp, r.volatile = false → r ≠ linkRegister → m'.get r = m.get r
  doubles : ∀ x : Fp, x.volatile = false → m'.getF x = m.getF x
  stack : ∀ a : UInt64, m.sp.toNat ≤ a.toNat → a.toNat < top.toNat → m'.ram a = m.ram a

def Machine.calling (m : Machine) (p : Nat) (target ret : UInt64) : Machine :=
  ((m.set ⟨16⟩ target).moveTo p).set linkRegister ret

def Gp.preserved (r : Gp) : Bool := 19 ≤ r.index.val && r.index.val ≤ 28

theorem Gp.not_volatile {r : Gp} (h : r.preserved = true) : r.volatile = false := by
  simp only [Gp.preserved, Bool.and_eq_true, decide_eq_true_eq] at h
  simp only [Gp.volatile, decide_eq_false_iff_not]
  omega

theorem Gp.ne_linkRegister {r : Gp} (h : r.preserved = true) : r ≠ linkRegister := by
  rintro rfl
  cases h

theorem Gp.ne_framePointer {r : Gp} (h : r.preserved = true) : r ≠ framePointer := by
  rintro rfl
  cases h

def Instr.Calls : Resolved → Prop
  | .blr _ => True
  | _ => False

def Instr.stores (m : Machine) : Resolved → List UInt64
  | .stpFrame => [m.sp - 16, m.sp - 16 + 8]
  | .strPre _ => [m.sp - 16]
  | .strPreD _ => [m.sp - 16]
  | _ => []

structure Restored (entry m : Machine) : Prop where
  sp : m.sp = entry.sp
  frame : m.get framePointer = entry.get framePointer
  link : m.get linkRegister = entry.get linkRegister
  preserved : ∀ r : Gp, r.preserved = true → m.get r = entry.get r
  doubles : ∀ x : Fp, x.volatile = false → m.getF x = entry.getF x

theorem get_calling {m : Machine} {p : Nat} {target ret : UInt64} {r : Gp} (h : ⟨16⟩ ≠ r)
    (hlink : linkRegister ≠ r) : (m.calling p target ret).get r = m.get r := by
  simp [Machine.calling, h, hlink]

theorem step_of_fetch (world : World Machine) (base : UInt64) {code : Array UInt32} {m : Machine}
    {i : Resolved} (h : fetch code m = some i) :
    step world base code m = execute world base m i := by
  unfold fetch at h
  simp only [step, h]

theorem stuck_of_fetch {world : World Machine} {base : UInt64} {code : Array UInt32} {m : Machine}
    (h : fetch code m = none) : step world base code m = .stuck := by
  unfold fetch at h
  simp only [step, h]

theorem ram_of_next {t m' : Machine} (h : next t = .running m') : m'.ram = t.ram := by
  cases h
  rfl

theorem ram_of_branch {m m' : Machine} {distance : Int} (h : branch m distance = .running m') :
    m'.ram = m.ram := by
  simp only [branch] at h
  split at h
  · cases h
    rfl
  · cases h

theorem ram_of_branchIf {m m' : Machine} {condition : Bool} {distance : Int}
    (h : branchIf m condition distance = .running m') : m'.ram = m.ram := by
  cases condition with
  | true => exact ram_of_branch h
  | false => exact ram_of_next h

theorem ram_of_execute {world : World Machine} {base : UInt64} {m m' : Machine} {i : Resolved}
    (hcall : ¬i.Calls) (hx : execute world base m i = .running m') {a : UInt64}
    (ha : ∀ w ∈ Instr.stores m i, w.toNat + 8 ≤ 0x10000000000000000 ∧
      (a.toNat < w.toNat ∨ w.toNat + 8 ≤ a.toNat)) : m'.ram a = m.ram a := by
  cases i with
  | blr r => exact absurd trivial hcall
  | ret => cases hx
  | stpFrame =>
    obtain ⟨hlt, hout⟩ := ha _ List.mem_cons_self
    obtain ⟨hlt', hout'⟩ := ha _ (List.mem_cons_of_mem _ List.mem_cons_self)
    rw [ram_of_next hx]
    exact (Ram.storeWord_outside _ _ hlt' hout').trans (Ram.storeWord_outside _ _ hlt hout)
  | strPre t | strPreD t =>
    obtain ⟨hlt, hout⟩ := ha _ List.mem_cons_self
    rw [ram_of_next hx]
    exact Ram.storeWord_outside _ _ hlt hout
  | b distance => rw [ram_of_branch hx]
  | bCond condition distance => rw [ram_of_branchIf hx]
  | cbz t distance => rw [ram_of_branchIf hx]
  | tbzBit0 t distance => rw [ram_of_branchIf hx]
  | _ => simp [ram_of_next hx, leave]

theorem memory_of_step {world : World Machine} {base : UInt64} {code : Array UInt32}
    {s s' : Machine} (hs : step world base code s = .running s')
    (hcall : ∀ i, fetch code s = some i → ¬i.Calls) (a : UInt64)
    (ha : ∀ i, fetch code s = some i → ∀ w ∈ Instr.stores s i,
      w.toNat + 8 ≤ 0x10000000000000000 ∧ (a.toNat < w.toNat ∨ w.toNat + 8 ≤ a.toNat)) :
    s'.ram a = s.ram a := by
  cases hf : fetch code s with
  | none =>
    rw [stuck_of_fetch hf] at hs
    cases hs
  | some i =>
    exact ram_of_execute (hcall i hf) ((step_of_fetch world base hf).symm.trans hs) (ha i hf)

section Views

variable {m m' : Machine}

theorem word_view {n : Text} {r : Gp} (h : Gp.ofName? n = some r) (hr : r.volatile = true)
    (m : Machine) (slots : List UInt64) : (view m slots).word n = m.get r := by
  simp [view, h, hr, Option.filter]

theorem double_view {n : Text} {x : Fp} (h : Fp.ofName? n = some x) (m : Machine)
    (slots : List UInt64) : (view m slots).double n = m.getF x := by
  simp [view, h]

theorem word_view_congr {slots slots' : List UInt64} {n : Text}
    (h : ∀ r : Gp, Gp.ofName? n = some r → r.volatile = true → m'.get r = m.get r) :
    (view m' slots').word n = (view m slots).word n := by
  simp only [view]
  cases hn : Gp.ofName? n with
  | none => rfl
  | some r => cases hr : r.volatile <;> simp [Option.filter, hr, h r hn]

theorem double_view_congr {slots slots' : List UInt64} {n : Text}
    (h : ∀ x, Fp.ofName? n = some x → m'.getF x = m.getF x) :
    (view m' slots').double n = (view m slots).double n := by
  simp only [view]
  cases hn : Fp.ofName? n with
  | none => rfl
  | some x => simp [h x hn]

theorem view_congr (slots : List UInt64)
    (hg : ∀ r : Gp, r.volatile = true → m'.get r = m.get r) (hx : ∀ x, m'.getF x = m.getF x)
    (hram : m'.ram = m.ram) (hfree : m'.free = m.free) : view m' slots = view m slots := by
  have hw : (view m' slots).word = (view m slots).word :=
    funext fun _ => word_view_congr fun r _ hr => hg r hr
  have hd : (view m' slots).double = (view m slots).double :=
    funext fun _ => double_view_congr fun x _ => hx x
  simp only [view, Native.View.mk.injEq] at hw hd ⊢
  exact ⟨hw, hd, trivial, hram, hfree⟩

end Views

def processor : Native.Processor Machine Resolved (Array UInt32) where
  target := target
  operand := by decide
  floatOperand := by decide
  secondArgument := by decide
  view := view
  view_eq _ _ := rfl
  position := Machine.position
  stackPointer := Machine.sp
  framePointer m := m.get framePointer
  load bs := (words bs).map List.toArray
  unit := 4
  unit_pos := by decide
  fetch := fetch
  step := step
  calls := Instr.Calls
  stores := Instr.stores
  memory := memory_of_step
  rise := 16
  rise_le := Nat.le_refl 16
  calling := Machine.calling
  stackPointer_calling m p a ret := by
    simp [Machine.calling]
  arguments_calling _ _ _ _ :=
    ⟨word_view_congr fun r hr _ => get_calling (by rintro rfl; cases hr) (by rintro rfl; cases hr),
      word_view_congr fun r hr _ => get_calling (by rintro rfl; cases hr) (by rintro rfl; cases hr),
      rfl, rfl⟩
  free_calling _ _ _ _ := rfl
  memory_calling _ _ _ _ _ _ _ := rfl
  kept := Kept
  restored := Restored

abbrev Activation := Native.Activation processor

namespace Activation

variable (A : Activation)

theorem toNat_frame : A.frame.toNat = A.entry.sp.toNat - 16 := Native.Activation.toNat_frame A

theorem frame_space : 16 * A.limit ≤ A.frame.toNat := by
  have h : 16 * A.limit + 16 ≤ A.frame.toNat + 16 := Native.Activation.frame_space A
  omega

structure Stands (m : Machine) (slots : List UInt64) : Prop where
  frame : m.get framePointer = A.frame
  top : m.sp = stackTop A.frame slots.length
  depth : slots.length ≤ A.limit
  slots : Slots m.ram A.frame slots
  saved : m.ram.word A.frame = A.entry.get framePointer
  savedLink : m.ram.word (A.frame + 8) = A.entry.get linkRegister
  preserved : ∀ r : Gp, r.preserved = true → m.get r = A.entry.get r
  doubles : ∀ x : Fp, x.volatile = false → m.getF x = A.entry.getF x

variable {A} {m m' : Machine} {slots : List UInt64}

theorem Stands.of_undisturbed (h : A.Stands m slots) (hu : Undisturbed Gp.volatile m m') :
    A.Stands m' slots where
  frame := (hu.kept _ rfl).trans h.frame
  top := hu.sp.trans h.top
  depth := h.depth
  slots := hu.ram ▸ h.slots
  saved := hu.ram ▸ h.saved
  savedLink := hu.ram ▸ h.savedLink
  preserved r hr := (hu.kept r (Gp.not_volatile hr)).trans (h.preserved r hr)
  doubles x hx := (hu.keptF x hx).trans (h.doubles x hx)

theorem Stands.level (h : A.Stands m slots) : A.Level slots.length m := by
  have hspace := A.frame_space
  have hdepth := h.depth
  have htop := toNat_stackTop A.frame slots.length (by omega)
  refine ⟨h.frame, ?_⟩
  change m.sp.toNat + _ = _
  rw [h.top, htop]
  omega

theorem safe_of_mild {s : Machine} {i : Resolved} (hi : i.Mild Gp.volatile) : A.Safe s i := by
  constructor
  · intro hc
    cases i <;> first | exact hi.elim | exact hc.elim
  · intro a ha
    cases i <;> first | exact hi.elim | cases ha

theorem visits_of_computing (h : A.Stands m slots) {start stop : Nat} {s : Machine}
    (hc : Computing Gp.volatile A.code start stop m s) :
    A.Visits start stop slots.length s where
  low := hc.low
  high := hc.high
  begins _ := (h.of_undisturbed hc.same).level
  safe i hi := by
    obtain ⟨j, hj, hm⟩ := hc.mild
    obtain rfl : j = i := Option.some.inj (hj.symm.trans hi)
    exact safe_of_mild hm

theorem leads_of_computes (h : A.Stands m slots) {start stop : Nat} {result : Machine → Prop}
    (hc : Computes Gp.volatile A.world A.base A.code start stop m result m) :
    A.Leads (A.Visits start stop slots.length)
      (fun m' => m'.position = stop ∧ A.Stands m' slots ∧ Undisturbed Gp.volatile m m' ∧
        result m') m :=
  OnePass.Leads.mono hc (fun _ hl => hl.elim) (fun _ hs => visits_of_computing h hs)
    fun _ hd => ⟨hd.1, h.of_undisturbed hd.2.1, hd.2⟩

end Activation

end OnePass.Arm64
