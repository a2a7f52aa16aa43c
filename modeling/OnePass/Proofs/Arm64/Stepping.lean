import OnePass.Arm64.Machine
import OnePass.Proofs.Arm64.Lowering
import OnePass.Proofs.Machine.Execution
import OnePass.Proofs.Machine.Memory

/-!
# Steps of the ARM64 machine

How the parts of a machine are seen after each update, and what one step does where the word of an
instruction stands.
-/

set_option autoImplicit false

namespace OnePass.Arm64

namespace Machine

variable (m : Machine) (r s : Gp) (x y : Fp) (v : UInt64) (d : Binary64) (n : Nat)

def moveTo : Machine := { m with position := n }

def withFlags (f : Flags) : Machine := { m with flags := f }

@[simp] theorem get_set :
    (m.set r v).get s = if r = s ∧ r.index.val < 31 then v else m.get s := by
  obtain ⟨i⟩ := r
  obtain ⟨j⟩ := s
  simp only [get, set, Gp.mk.injEq]
  by_cases hi : i.val < 31
  · by_cases hj : j.val < 31
    · have h := vector_get_set m.gp ⟨i, hi⟩ ⟨j, hj⟩ v
      simp only [Fin.ext_iff] at h
      simpa [hi, hj, Fin.ext_iff] using h
    · have hne : i ≠ j := fun h => hj (h ▸ hi)
      simp [hi, hj, hne]
  · simp [hi]

@[simp] theorem getF_setF : (m.setF x d).getF y = if x = y then d else m.getF y := by
  obtain ⟨i⟩ := x
  obtain ⟨j⟩ := y
  simp only [getF, setF, Fp.mk.injEq]
  exact vector_get_set m.fp i j d

@[simp] theorem get_zero : m.get ⟨31⟩ = 0 := rfl

theorem set_set (w : UInt64) : (m.set r v).set r w = m.set r w := by
  by_cases h : r.index.val < 31
  · simp [set, h]
  · simp [set, h]

@[simp] theorem getF_set : (m.set r v).getF x = m.getF x := by unfold set; split <;> rfl
@[simp] theorem sp_set : (m.set r v).sp = m.sp := by unfold set; split <;> rfl
@[simp] theorem ram_set : (m.set r v).ram = m.ram := by unfold set; split <;> rfl
@[simp] theorem free_set : (m.set r v).free = m.free := by unfold set; split <;> rfl
@[simp] theorem flags_set : (m.set r v).flags = m.flags := by unfold set; split <;> rfl
@[simp] theorem position_set : (m.set r v).position = m.position := by unfold set; split <;> rfl

def withSp (v : UInt64) : Machine := { m with sp := v }

@[simp] theorem get_withSp : (m.withSp v).get r = m.get r := rfl
@[simp] theorem getF_withSp : (m.withSp v).getF x = m.getF x := rfl
@[simp] theorem sp_withSp : (m.withSp v).sp = v := rfl
@[simp] theorem ram_withSp : (m.withSp v).ram = m.ram := rfl
@[simp] theorem free_withSp : (m.withSp v).free = m.free := rfl
@[simp] theorem position_withSp : (m.withSp v).position = m.position := rfl

@[simp] theorem get_setF : (m.setF x d).get r = m.get r := rfl
@[simp] theorem sp_setF : (m.setF x d).sp = m.sp := rfl
@[simp] theorem ram_setF : (m.setF x d).ram = m.ram := rfl
@[simp] theorem free_setF : (m.setF x d).free = m.free := rfl
@[simp] theorem flags_setF : (m.setF x d).flags = m.flags := rfl
@[simp] theorem position_setF : (m.setF x d).position = m.position := rfl

@[simp] theorem get_moveTo : (m.moveTo n).get r = m.get r := rfl
@[simp] theorem getF_moveTo : (m.moveTo n).getF x = m.getF x := rfl
@[simp] theorem sp_moveTo : (m.moveTo n).sp = m.sp := rfl
@[simp] theorem ram_moveTo : (m.moveTo n).ram = m.ram := rfl
@[simp] theorem free_moveTo : (m.moveTo n).free = m.free := rfl
@[simp] theorem flags_moveTo : (m.moveTo n).flags = m.flags := rfl
@[simp] theorem position_moveTo : (m.moveTo n).position = n := rfl

@[simp] theorem get_withFlags (f : Flags) : (m.withFlags f).get r = m.get r := rfl
@[simp] theorem flags_withFlags (f : Flags) : (m.withFlags f).flags = f := rfl
@[simp] theorem position_withFlags (f : Flags) : (m.withFlags f).position = m.position := rfl

@[simp] theorem get_push : (m.push v).get r = m.get r := rfl
@[simp] theorem getF_push : (m.push v).getF x = m.getF x := rfl
@[simp] theorem sp_push : (m.push v).sp = m.sp - 16 := rfl
@[simp] theorem ram_push : (m.push v).ram = m.ram.storeWord (m.sp - 16) v := rfl
@[simp] theorem free_push : (m.push v).free = m.free := rfl
@[simp] theorem position_push : (m.push v).position = m.position := rfl

@[simp] theorem get_drop : m.drop.get r = m.get r := rfl
@[simp] theorem getF_drop : m.drop.getF x = m.getF x := rfl
@[simp] theorem sp_drop : m.drop.sp = m.sp + 16 := rfl
@[simp] theorem ram_drop : m.drop.ram = m.ram := rfl
@[simp] theorem free_drop : m.drop.free = m.free := rfl
@[simp] theorem position_drop : m.drop.position = m.position := rfl

end Machine

theorem next_eq (m : Machine) : next m = .running (m.moveTo (m.position + 1)) := rfl

def CodeAt (code : Array UInt32) (p : Nat) (is : List Resolved) : Prop :=
  ∃ rest, code.toList.drop p = is.map Instr.word ++ rest

namespace CodeAt

variable {code : Array UInt32} {p : Nat}

theorem right (is : List Resolved) {js : List Resolved} (h : CodeAt code p (is ++ js)) :
    CodeAt code (p + is.length) js := by
  obtain ⟨rest, hr⟩ := h
  refine ⟨rest, ?_⟩
  rw [← List.drop_drop, hr, List.map_append, List.append_assoc, List.drop_left' (by simp)]

theorem left {is js : List Resolved} (h : CodeAt code p (is ++ js)) : CodeAt code p is := by
  obtain ⟨rest, hr⟩ := h
  exact ⟨js.map Instr.word ++ rest, by rw [hr, List.map_append, List.append_assoc]⟩

end CodeAt

def fetch (code : Array UInt32) (m : Machine) : Option Resolved := code[m.position]?.bind decode

variable {world : World Machine} {base : UInt64} {code : Array UInt32} {m : Machine} {i : Resolved}
  {is : List Resolved}

theorem fetch_at (h : CodeAt code m.position (i :: is)) (hi : i.Encodable) :
    fetch code m = some i := by
  obtain ⟨rest, hr⟩ := h
  have hw : code[m.position]? = some i.word := by
    rw [← Array.getElem?_toList, ← List.head?_drop, hr]
    rfl
  rw [fetch, hw]
  exact Instr.decode_word hi

theorem step_at (h : CodeAt code m.position (i :: is)) (hi : i.Encodable) :
    step world base code m = execute world base m i := by
  have hf := fetch_at h hi
  rw [fetch] at hf
  rw [step, hf]

end OnePass.Arm64
