import OnePass.Machine
import OnePass.Proofs.Buffer.Bytes

/-!
# Registers, words and slots in memory

A stored word is read back, and storing changes nothing elsewhere. The values a function keeps on
its stack stand below its frame, sixteen bytes apart.
-/

set_option autoImplicit false

namespace OnePass

theorem toNat_ofNat_of_lt {n : Nat} (h : n < 0x10000000000000000) : (UInt64.ofNat n).toNat = n :=
  UInt64.toNat_ofNat_of_lt' h

theorem vector_get_set {α : Type} {n : Nat} (v : Vector α n) (i j : Fin n) (x : α) :
    (v.set i x).get j = if i = j then x else v.get j := by
  have h : (v.set i x)[j.val] = if i.val = j.val then x else v[j.val] := Vector.getElem_set ..
  simp only [Fin.ext_iff]
  exact h

namespace Ram

theorem load_congr {r r' : Ram} {a : UInt64} {n : Nat}
    (h : ∀ i < n, r (a + UInt64.ofNat i) = r' (a + UInt64.ofNat i)) : r.load a n = r'.load a n := by
  apply List.map_congr_left
  intro i hi
  exact h i (List.mem_range.mp hi)

theorem word_congr {r r' : Ram} {a : UInt64}
    (h : ∀ i < 8, r (a + UInt64.ofNat i) = r' (a + UInt64.ofNat i)) : r.word a = r'.word a := by
  rw [word, word, load_congr h]

@[simp] theorem length_load (r : Ram) (a : UInt64) (n : Nat) : (r.load a n).length = n := by
  simp [load]

theorem load_store_self (r : Ram) (a : UInt64) (bs : Bytes) (h : bs.length < 0x10000000000000000) :
    (r.store a bs).load a bs.length = bs := by
  apply List.ext_getElem
  · simp
  · intro i hi hb
    have hd : (a + UInt64.ofNat i - a).toNat = i := by
      rw [UInt64.add_comm, UInt64.add_sub_cancel]
      exact toNat_ofNat_of_lt (by omega)
    simp only [load, store, List.getElem_map, List.getElem_range, hd]
    rw [List.getD_eq_getElem?_getD, List.getElem?_eq_getElem hb, Option.getD_some]

@[simp] theorem word_storeWord_self (r : Ram) (a v : UInt64) : (r.storeWord a v).word a = v := by
  have h := load_store_self r a (littleEndian 8 v.toNat) (by simp)
  rw [length_littleEndian] at h
  rw [word, storeWord, h, word_of_bytes]

theorem storeWord_outside (r : Ram) {a x : UInt64} (v : UInt64)
    (ha : a.toNat + 8 ≤ 0x10000000000000000) (h : x.toNat < a.toNat ∨ a.toNat + 8 ≤ x.toNat) :
    r.storeWord a v x = r x := by
  have hx := x.toNat_lt
  have hd : 8 ≤ (x - a).toNat := by
    rw [UInt64.toNat_sub]
    omega
  rw [storeWord, store, List.getD_eq_getElem?_getD,
    List.getElem?_eq_none (by rw [length_littleEndian]; exact hd)]
  rfl

end Ram

theorem toNat_add_ofNat {a : UInt64} {i : Nat} (h : a.toNat + i < 0x10000000000000000) :
    (a + UInt64.ofNat i).toNat = a.toNat + i := by
  rw [UInt64.toNat_add, toNat_ofNat_of_lt (by omega)]
  omega

theorem Ram.word_storeWord_outside (r : Ram) {a b : UInt64} (v : UInt64)
    (ha : a.toNat + 8 ≤ 0x10000000000000000) (hb : b.toNat + 8 ≤ 0x10000000000000000)
    (h : b.toNat + 8 ≤ a.toNat ∨ a.toNat + 8 ≤ b.toNat) : (r.storeWord a v).word b = r.word b := by
  apply word_congr
  intro i hi
  apply storeWord_outside r v ha
  rw [toNat_add_ofNat (by omega)]
  omega

def stackTop (frame : UInt64) (n : Nat) : UInt64 := frame - 16 * UInt64.ofNat n

@[simp] theorem stackTop_zero (frame : UInt64) : stackTop frame 0 = frame := by
  simp [stackTop]

theorem stackTop_succ (frame : UInt64) (n : Nat) :
    stackTop frame (n + 1) = stackTop frame n - 16 := by
  simp only [stackTop, UInt64.ofNat_add]
  grind

theorem toNat_stackTop (frame : UInt64) (n : Nat) (h : 16 * n ≤ frame.toNat) :
    (stackTop frame n).toNat = frame.toNat - 16 * n := by
  have hf := frame.toNat_lt
  have hm : (16 * UInt64.ofNat n).toNat = 16 * n := by
    rw [UInt64.toNat_mul, toNat_ofNat_of_lt (by omega)]
    simp only [UInt64.reduceToNat]
    omega
  rw [stackTop, UInt64.toNat_sub_of_le _ _ (UInt64.le_iff_toNat_le.2 (by omega)), hm]

def Slots (r : Ram) (frame : UInt64) : List UInt64 → Prop
  | [] => True
  | v :: vs => r.word (stackTop frame (vs.length + 1)) = v ∧ Slots r frame vs

/-- The slots only depend on their own bytes. -/
theorem Slots.congr {r r' : Ram} {frame : UInt64} {vs : List UInt64} (h : Slots r frame vs)
    (hf : 16 * vs.length ≤ frame.toNat)
    (hr : ∀ a : UInt64, frame.toNat - 16 * vs.length ≤ a.toNat → a.toNat < frame.toNat →
      r' a = r a) : Slots r' frame vs := by
  induction vs with
  | nil => trivial
  | cons v vs ih =>
    simp only [List.length_cons] at hf hr
    refine ⟨?_, ih h.2 (by omega) fun a hl hu => hr a (by omega) hu⟩
    rw [← h.1]
    have hs := toNat_stackTop _ _ hf
    have hlt := frame.toNat_lt
    apply Ram.word_congr
    intro i hi
    have ha : (stackTop frame (vs.length + 1) + UInt64.ofNat i).toNat =
        frame.toNat - 16 * (vs.length + 1) + i := by
      rw [toNat_add_ofNat (by omega), hs]
    exact hr _ (by omega) (by omega)

theorem Slots.push {r : Ram} {frame : UInt64} {vs : List UInt64} (v : UInt64)
    (h : Slots r frame vs) (hf : 16 * (vs.length + 1) ≤ frame.toNat) :
    Slots (r.storeWord (stackTop frame (vs.length + 1)) v) frame (v :: vs) := by
  have hs := toNat_stackTop _ _ hf
  have hlt := frame.toNat_lt
  refine ⟨Ram.word_storeWord_self _ _ _, h.congr (by omega) fun a hl _ => ?_⟩
  exact Ram.storeWord_outside r v (by omega) (by omega)

end OnePass
