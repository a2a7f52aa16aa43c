import OnePass.Proofs.Machine.Execution
import OnePass.Proofs.Machine.Memory
import OnePass.Proofs.X86.Lowering
import OnePass.X86.Machine

/-!
# Steps of the x86-64 machine

How the parts of a machine are seen after each update, and what one step does where the bytes of an
instruction stand.
-/

set_option autoImplicit false

namespace OnePass.X86

namespace Machine

variable (m : Machine) (r s : Gp) (x y : Xmm) (v a : UInt64) (d : Binary64) (f : Flags) (n : Nat)

def moveTo : Machine := { m with position := n }

def advance : Machine := m.moveTo (m.position + n)

@[simp] theorem get_set : (m.set r v).get s = if r = s then v else m.get s := by
  obtain ⟨i⟩ := r
  obtain ⟨j⟩ := s
  simp only [get, set, Gp.mk.injEq]
  exact vector_get_set m.gp i j v

@[simp] theorem getX_setX : (m.setX x d).getX y = if x = y then d else m.getX y := by
  obtain ⟨i⟩ := x
  obtain ⟨j⟩ := y
  simp only [getX, setX, Xmm.mk.injEq]
  exact vector_get_set m.xmm i j d

@[simp] theorem getX_set : (m.set r v).getX x = m.getX x := rfl
@[simp] theorem ram_set : (m.set r v).ram = m.ram := rfl
@[simp] theorem free_set : (m.set r v).free = m.free := rfl
@[simp] theorem flags_set : (m.set r v).flags = m.flags := rfl
@[simp] theorem position_set : (m.set r v).position = m.position := rfl

@[simp] theorem get_setX : (m.setX x d).get r = m.get r := rfl
@[simp] theorem ram_setX : (m.setX x d).ram = m.ram := rfl
@[simp] theorem free_setX : (m.setX x d).free = m.free := rfl
@[simp] theorem flags_setX : (m.setX x d).flags = m.flags := rfl
@[simp] theorem position_setX : (m.setX x d).position = m.position := rfl

@[simp] theorem get_withFlags : (m.withFlags f).get r = m.get r := rfl
@[simp] theorem getX_withFlags : (m.withFlags f).getX x = m.getX x := rfl
@[simp] theorem ram_withFlags : (m.withFlags f).ram = m.ram := rfl
@[simp] theorem free_withFlags : (m.withFlags f).free = m.free := rfl
@[simp] theorem flags_withFlags : (m.withFlags f).flags = some f := rfl
@[simp] theorem position_withFlags : (m.withFlags f).position = m.position := rfl

@[simp] theorem get_clobberFlags : m.clobberFlags.get r = m.get r := rfl
@[simp] theorem getX_clobberFlags : m.clobberFlags.getX x = m.getX x := rfl
@[simp] theorem ram_clobberFlags : m.clobberFlags.ram = m.ram := rfl
@[simp] theorem free_clobberFlags : m.clobberFlags.free = m.free := rfl
@[simp] theorem position_clobberFlags : m.clobberFlags.position = m.position := rfl

@[simp] theorem get_storeWord : (m.storeWord a v).get r = m.get r := rfl
@[simp] theorem getX_storeWord : (m.storeWord a v).getX x = m.getX x := rfl
@[simp] theorem ram_storeWord : (m.storeWord a v).ram = m.ram.storeWord a v := rfl
@[simp] theorem free_storeWord : (m.storeWord a v).free = m.free := rfl
@[simp] theorem position_storeWord : (m.storeWord a v).position = m.position := rfl

@[simp] theorem get_moveTo : (m.moveTo n).get r = m.get r := rfl
@[simp] theorem getX_moveTo : (m.moveTo n).getX x = m.getX x := rfl
@[simp] theorem ram_moveTo : (m.moveTo n).ram = m.ram := rfl
@[simp] theorem free_moveTo : (m.moveTo n).free = m.free := rfl
@[simp] theorem position_moveTo : (m.moveTo n).position = n := rfl

@[simp] theorem get_advance : (m.advance n).get r = m.get r := rfl
@[simp] theorem getX_advance : (m.advance n).getX x = m.getX x := rfl
@[simp] theorem ram_advance : (m.advance n).ram = m.ram := rfl
@[simp] theorem free_advance : (m.advance n).free = m.free := rfl
@[simp] theorem flags_advance : (m.advance n).flags = m.flags := rfl
@[simp] theorem top_advance : (m.advance n).top = m.top := rfl
@[simp] theorem position_advance : (m.advance n).position = m.position + n := rfl

@[simp] theorem get_adjust : (m.adjust v).get r = if .rsp = r then m.get .rsp + v else m.get r := by
  simp [adjust]

@[simp] theorem getX_adjust : (m.adjust v).getX x = m.getX x := rfl
@[simp] theorem ram_adjust : (m.adjust v).ram = m.ram := rfl
@[simp] theorem free_adjust : (m.adjust v).free = m.free := rfl
@[simp] theorem position_adjust : (m.adjust v).position = m.position := rfl

end Machine

def CodeAt (code : Array UInt8) (p : Nat) (is : List Resolved) : Prop :=
  ∃ rest, code.toList.drop p = encodeAll is ++ rest

namespace CodeAt

variable {code : Array UInt8} {p : Nat} {i : Resolved} {is js : List Resolved}

theorem right (is : List Resolved) {js : List Resolved} (h : CodeAt code p (is ++ js)) :
    CodeAt code (p + codeSize is) js := by
  obtain ⟨rest, hr⟩ := h
  refine ⟨rest, ?_⟩
  rw [← List.drop_drop, hr, encodeAll_append, List.append_assoc, codeSize, List.drop_left]

theorem left (h : CodeAt code p (is ++ js)) : CodeAt code p is := by
  obtain ⟨rest, hr⟩ := h
  exact ⟨encodeAll js ++ rest, by rw [hr, encodeAll_append, List.append_assoc]⟩

end CodeAt

def fetch (code : Array UInt8) (m : Machine) : Option Resolved :=
  (decode (code.extract m.position (m.position + longestInstruction)).toList).map Prod.fst

variable {world : World Machine} {base : UInt64} {code : Array UInt8} {m : Machine} {i : Resolved}
  {is : List Resolved}

theorem decode_window (h : CodeAt code m.position (i :: is)) (hi : i.Encodable) :
    ∃ rest, (code.extract m.position (m.position + longestInstruction)).toList =
      i.encode ++ rest ∧ decode (i.encode ++ rest) = some (i.plain, rest) := by
  obtain ⟨rest, hr⟩ := h
  refine ⟨(encodeAll is ++ rest).take (longestInstruction - i.encode.length), ?_,
    Instr.decode_encode i hi _⟩
  have hlen := i.length_encode_le
  rw [Array.toList_extract, List.extract_eq_take_drop, hr, Nat.add_sub_cancel_left,
    encodeAll_cons, List.append_assoc, List.take_append,
    List.take_of_length_le (Nat.le_trans hlen (by decide))]

theorem fetch_at (h : CodeAt code m.position (i :: is)) (hi : i.Encodable) :
    fetch code m = some i.plain := by
  obtain ⟨rest, hw, hd⟩ := decode_window h hi
  rw [fetch, hw, hd]
  rfl

theorem step_at (h : CodeAt code m.position (i :: is)) (hi : i.Encodable) :
    step world base code m = execute world base (m.advance i.encode.length) i.plain := by
  obtain ⟨rest, hw, hd⟩ := decode_window h hi
  simp only [step, hw, hd, List.length_append, Nat.add_sub_cancel]
  rfl

theorem step_of_fetch (world : World Machine) (base : UInt64) (h : fetch code m = some i) :
    ∃ p, step world base code m = execute world base (m.moveTo p) i := by
  obtain ⟨⟨j, rest⟩, hd, rfl⟩ := Option.map_eq_some_iff.1 h
  exact ⟨_, by simp only [step, hd]; rfl⟩

end OnePass.X86
