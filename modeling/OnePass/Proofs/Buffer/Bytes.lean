import OnePass.Buffer.Basic

/-!
# Bytes of numbers, regions and buffers

Little-endian numbers are read back as they were written. A region is seen through the byte at each
offset; storing changes the bytes stored and no others. A buffer is seen through the list of its
emitted bytes.
-/

set_option autoImplicit false

namespace OnePass

@[simp] theorem length_littleEndian (n v : Nat) : (littleEndian n v).length = n := by
  induction n generalizing v with
  | zero => rfl
  | succ n ih => simp [littleEndian, ih]

theorem ofLittleEndian_littleEndian (n v : Nat) :
    ofLittleEndian (littleEndian n v) = v % Nat.pow 256 n := by
  induction n generalizing v with
  | zero => exact (Nat.mod_one v).symm
  | succ n ih =>
    have hbyte : (UInt8.ofNat (v % 256)).toNat = v % 256 := by simp
    have hpow : Nat.pow 256 (n + 1) = 256 * Nat.pow 256 n := Nat.mul_comm _ _
    rw [littleEndian, ofLittleEndian, ih, hbyte, hpow, Nat.mod_mul]

theorem word_of_bytes (v : UInt64) :
    UInt64.ofNat (ofLittleEndian (littleEndian 8 v.toNat)) = v := by
  rw [ofLittleEndian_littleEndian, Nat.mod_eq_of_lt (show v.toNat < Nat.pow 256 8 from v.toNat_lt)]
  exact UInt64.ofNat_toNat

theorem halfWord_of_bytes (v : UInt32) :
    UInt32.ofNat (ofLittleEndian (littleEndian 4 v.toNat)) = v := by
  rw [ofLittleEndian_littleEndian, Nat.mod_eq_of_lt (show v.toNat < Nat.pow 256 4 from v.toNat_lt)]
  exact UInt32.ofNat_toNat

namespace Memory

theorem byte_set (m : Memory) (i k : Nat) (b : UInt8) :
    (m.set i b).byte k = if k = i then b else m.byte k := by
  by_cases h : i < m.cells.size
  · simp only [set, byte, h, if_true, Array.getD_eq_getD_getElem?, Array.getElem?_setIfInBounds]
    by_cases hk : k = i
    · simp [hk]
    · simp [hk, Ne.symm hk]
  · simp only [set, byte, h, if_false, Array.getD_eq_getD_getElem?, Array.getElem?_push,
      Array.size_append, Array.size_replicate]
    have hi : m.cells.size + (i - m.cells.size) = i := by omega
    by_cases hk : k = i
    · simp [hi, hk]
    · rw [hi, if_neg hk, if_neg hk, Array.getElem?_append]
      by_cases hc : k < m.cells.size
      · simp [hc]
      · simp [hc, Array.getElem?_replicate]
        split <;> rfl

@[simp] theorem size_set (m : Memory) (i : Nat) (b : UInt8) : (m.set i b).size = m.size := by
  unfold set
  split <;> rfl

@[simp] theorem size_store (m : Memory) (i : Nat) (bs : Bytes) : (m.store i bs).size = m.size := by
  induction bs generalizing m i with
  | nil => rfl
  | cons b bs ih => simp [store, ih]

theorem byte_store (m : Memory) (i k : Nat) (bs : Bytes) :
    (m.store i bs).byte k = if i ≤ k then bs.getD (k - i) (m.byte k) else m.byte k := by
  induction bs generalizing m i with
  | nil => simp [store]
  | cons b bs ih =>
    rw [store, ih, byte_set]
    by_cases hk : k = i
    · rw [if_neg (show ¬i + 1 ≤ k by omega), if_pos hk, if_pos (Nat.le_of_eq hk.symm), hk,
        Nat.sub_self, List.getD_cons_zero]
    · by_cases hi : i ≤ k
      · have h : k - i = (k - (i + 1)) + 1 := by omega
        rw [if_pos (show i + 1 ≤ k by omega), if_pos hi, h, List.getD_cons_succ, if_neg hk]
      · rw [if_neg (show ¬i + 1 ≤ k by omega), if_neg hi, if_neg hk]

theorem byte_store_outside (m : Memory) {i k : Nat} {bs : Bytes} (h : k < i ∨ i + bs.length ≤ k) :
    (m.store i bs).byte k = m.byte k := by
  rw [byte_store]
  by_cases hi : i ≤ k
  · rw [if_pos hi, List.getD_eq_getElem?_getD, List.getElem?_eq_none (by omega)]
    rfl
  · rw [if_neg hi]

@[simp] theorem length_slice (m : Memory) (i n : Nat) : (m.slice i n).length = n := by
  simp [slice]

theorem getElem?_slice (m : Memory) (i n k : Nat) :
    (m.slice i n)[k]? = if k < n then some (m.byte (i + k)) else none := by
  by_cases h : k < n <;> simp [slice, h]

theorem slice_add (m : Memory) (i n k : Nat) :
    m.slice i (n + k) = m.slice i n ++ m.slice (i + n) k := by
  simp [slice, List.range_add, Nat.add_assoc, Function.comp_def]

theorem slice_congr (m m' : Memory) (i n : Nat) (h : ∀ k < n, m.byte (i + k) = m'.byte (i + k)) :
    m.slice i n = m'.slice i n := by
  apply List.map_congr_left
  intro k hk
  exact h k (List.mem_range.mp hk)

theorem slice_store_self (m : Memory) (i : Nat) (bs : Bytes) :
    (m.store i bs).slice i bs.length = bs := by
  apply List.ext_getElem?
  intro k
  rw [getElem?_slice, byte_store, if_pos (Nat.le_add_right i k), Nat.add_sub_cancel_left]
  by_cases h : k < bs.length
  · simp [h]
  · simp [h]

theorem slice_store_before (m : Memory) (i n : Nat) (bs : Bytes) (h : n ≤ i) :
    (m.store i bs).slice 0 n = m.slice 0 n := by
  apply slice_congr
  intro k hk
  exact m.byte_store_outside (.inl (by omega))

theorem byte_of_slice {m : Memory} {n : Nat} {s : Bytes} (h : m.slice 0 n = s) {k : Nat}
    (hk : k < n) : s[k]? = some (m.byte k) := by
  rw [← h, getElem?_slice, if_pos hk, Nat.zero_add]

theorem slice_middle (m : Memory) (n : Nat) (A old B : Bytes) (h : m.slice 0 n = A ++ old ++ B) :
    m.slice A.length old.length = old := by
  have hn := congrArg List.length h
  simp only [length_slice, List.length_append] at hn
  apply List.ext_getElem?
  intro k
  rw [getElem?_slice]
  by_cases hk : k < old.length
  · rw [if_pos hk, ← byte_of_slice h (by omega), List.getElem?_append_left (by simp; omega),
      List.getElem?_append_right (Nat.le_add_right _ _), Nat.add_sub_cancel_left]
  · rw [if_neg hk, List.getElem?_eq_none (Nat.le_of_not_lt hk)]

/-- Storing over bytes inside a slice replaces those bytes. -/
theorem slice_store_middle (m : Memory) (n : Nat) (A old new B : Bytes)
    (hlen : old.length = new.length) (h : m.slice 0 n = A ++ old ++ B) :
    (m.store A.length new).slice 0 n = A ++ new ++ B := by
  have hn := congrArg List.length h
  simp only [length_slice, List.length_append] at hn
  apply List.ext_getElem?
  intro k
  rw [getElem?_slice, byte_store, Nat.zero_add]
  by_cases hk : k < n
  · have hb := byte_of_slice h hk
    rw [if_pos hk]
    by_cases hA : A.length ≤ k
    · by_cases hnew : k - A.length < new.length
      · rw [if_pos hA, List.getD_eq_getElem?_getD, List.getElem?_append_left (by simp; omega),
          List.getElem?_append_right hA, List.getElem?_eq_getElem hnew]
        rfl
      · have hlong : (A ++ old).length ≤ k := by
          rw [List.length_append]
          omega
        rw [List.getElem?_append_right hlong, List.length_append, hlen] at hb
        rw [if_pos hA, List.getD_eq_getElem?_getD, List.getElem?_eq_none (by omega),
          List.getElem?_append_right (by simp; omega), List.length_append, hb]
        rfl
    · rw [List.append_assoc, List.getElem?_append_left (by omega)] at hb
      rw [if_neg hA, List.append_assoc, List.getElem?_append_left (by omega), hb]
  · rw [if_neg hk, List.getElem?_eq_none (by simp; omega)]

end Memory

end OnePass
