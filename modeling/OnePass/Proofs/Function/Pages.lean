import OnePass.Function
import OnePass.Proofs.Buffer.Bytes

/-!
# Pages of functions

A page that was asked for is writable, holds zeros and is at least as large as asked for. A buffer
over it has as many bytes as were asked for, or all there are. Once the page is closed, a copy of it
is what the buffer held.
-/

set_option autoImplicit false

namespace OnePass

/-- Clearing bits takes away no more than the bits are worth. -/
theorem toNat_le_toNat_clear (x mask : BitVec 64) :
    x.toNat ≤ (x &&& ~~~mask).toNat + mask.toNat := by
  have hdisjoint : (x &&& ~~~mask) &&& (x &&& mask) = 0#64 := by
    ext i
    cases hx : x[i] <;> simp [hx]
  have hsum : (x &&& ~~~mask) + (x &&& mask) = x := by
    rw [BitVec.add_eq_or_of_and_eq_zero _ _ hdisjoint]
    ext i
    cases hx : x[i] <;> simp [hx]
  have hle : (x &&& mask).toNat ≤ mask.toNat := by
    rw [BitVec.toNat_and]
    exact Nat.and_le_right
  calc x.toNat = ((x &&& ~~~mask) + (x &&& mask)).toNat := by rw [hsum]
    _ = (x &&& ~~~mask).toNat + (x &&& mask).toNat := BitVec.toNat_add_of_and_eq_zero hdisjoint
    _ ≤ (x &&& ~~~mask).toNat + mask.toNat := Nat.add_le_add_left hle _

theorem toNatClampNeg_eq {i : Int64} (h : i.toBitVec.toNat < 0x8000000000000000) :
    i.toNatClampNeg = i.toBitVec.toNat := by
  rw [Int64.toNatClampNeg, Int64.toInt, BitVec.toInt_eq_toNat_of_lt (by omega), Int.toNat_natCast]

namespace Page

/-- A moderate size is rounded up. -/
theorem le_roundedSize {n unit : Nat} (hn : 0 < n) (h : n ≤ 0x40000000) (hu : 0 < unit)
    (hle : unit ≤ 0x40000000) : n ≤ (roundedSize (Int64.ofNat n) unit).toNatClampNeg := by
  have hpos : ¬Int64.ofNat n ≤ 0 := by
    rw [Int64.le_iff_toInt_le, Int64.toInt_ofNat_of_lt (by omega)]
    exact Int.not_le.2 (Int.natCast_pos.2 hn)
  have hof {k : Nat} (hk : k ≤ 0x40000000) : (Int64.ofNat k).toBitVec.toNat = k := by
    rw [Int64.toBitVec_ofNat', BitVec.toNat_ofNat]
    omega
  have hmask : (Int64.ofNat unit - 1).toBitVec.toNat = unit - 1 := by
    have hone : (1 : Int64).toBitVec.toNat = 1 := rfl
    rw [Int64.toBitVec_sub, BitVec.toNat_sub, hof hle, hone]
    omega
  have hraised : (Int64.ofNat n + (Int64.ofNat unit - 1)).toBitVec.toNat = n + (unit - 1) := by
    rw [Int64.toBitVec_add, BitVec.toNat_add, hof h, hmask]
    omega
  have hround : (roundedSize (Int64.ofNat n) unit).toBitVec =
      (Int64.ofNat n + (Int64.ofNat unit - 1)).toBitVec &&&
        ~~~(Int64.ofNat unit - 1).toBitVec := by
    rw [roundedSize, if_neg hpos]
    rfl
  have hclear := toNat_le_toNat_clear (Int64.ofNat n + (Int64.ofNat unit - 1)).toBitVec
    (Int64.ofNat unit - 1).toBitVec
  have hwithin : (roundedSize (Int64.ofNat n) unit).toBitVec.toNat ≤ n + (unit - 1) := by
    rw [hround, BitVec.toNat_and, hraised]
    exact Nat.and_le_left
  rw [← hround, hraised, hmask] at hclear
  rw [toNatClampNeg_eq (by omega)]
  exact Nat.le_of_add_le_add_right hclear

def fresh (unit : Nat) (size : Int64) : Page :=
  { memory := Memory.zeroed (roundedSize size unit).toNatClampNeg }

theorem allocate_eq_ok {grants : Nat → Bool} {unit : Nat} {size : Int64} {p : Page}
    (h : allocate grants size unit = .ok p) : p = fresh unit size := by
  unfold allocate at h
  dsimp only at h
  split at h
  · cases h
  · split at h
    · cases h
      rfl
    · cases h

/-- The bytes of a new page that a buffer gets: as many as were asked for, or all there are. -/
def room (unit n : Nat) : Nat :=
  let size := (roundedSize (Int64.ofNat n) unit).toNatClampNeg
  if 0 < n ∧ n < size then n else size

theorem room_le (unit n : Nat) : room unit n ≤ (fresh unit (Int64.ofNat n)).memory.size := by
  change room unit n ≤ (roundedSize (Int64.ofNat n) unit).toNatClampNeg
  unfold room
  dsimp only
  split
  · omega
  · exact Nat.le_refl _

theorem room_lt (unit n : Nat) : room unit n < 0x8000000000000000 := by
  refine Nat.lt_of_le_of_lt (room_le unit n) ?_
  have hlt := (roundedSize (Int64.ofNat n) unit).toInt_lt
  change (roundedSize (Int64.ofNat n) unit).toNatClampNeg < _
  rw [Int64.toNatClampNeg]
  omega

theorem room_eq {unit n : Nat} (h : 0 < n)
    (hle : n ≤ (roundedSize (Int64.ofNat n) unit).toNatClampNeg) : room unit n = n := by
  unfold room
  dsimp only
  split
  · rfl
  · omega

theorem buffer_fresh (unit n : Nat) (name : Text) (address : UInt64) :
    (fresh unit (Int64.ofNat n)).buffer name n address =
      .ok (.create name (room unit n) address) := by
  unfold fresh room
  generalize (roundedSize (Int64.ofNat n) unit).toNatClampNeg = size
  have hsize : (if 0 < (n : Int) ∧ (n : Int) < size then (n : Int).toNat else size) =
      if 0 < n ∧ n < size then n else size := by
    simp only [Int.natCast_pos, Int.ofNat_lt, Int.toNat_natCast]
  exact congrArg (fun k => Except.ok (Buffer.create name k address)) hsize

def closed (p : Page) (b : Buffer) (state : Protection) : Page := { p.ofBuffer b with state }

theorem snapshot_closed {p : Page} {b : Buffer} {state : Protection} (hs : state ≠ .released)
    (h : b.offset ≤ p.memory.size) : (p.closed b state).snapshot b.offset = .ok b.bytes := by
  have hmapped : (p.closed b state).isMapped = true := decide_eq_true hs
  have hmin : min b.offset (p.closed b state).memory.size = b.offset := Nat.min_eq_left h
  rw [snapshot, if_pos hmapped, hmin]
  rfl

end Page

/-- The host's pages hold every moderate size. -/
theorem Host.le_roundedSize (h : Host) {n : Nat} (hn : 0 < n) (hle : n ≤ 0x40000000) :
    n ≤ (Page.roundedSize (Int64.ofNat n) h.pageSize).toNatClampNeg :=
  Page.le_roundedSize hn hle (Nat.pos_of_isPowerOfTwo h.pageSize_isPowerOfTwo) h.pageSize_le

namespace AddressSpace

variable {h : Host} {s s' : AddressSpace} {m n : Nat} {size size' : Int64}

structure Fresh (h : Host) (s : AddressSpace) (n : Nat) (size : Int64) : Prop where
  lt : n < s.pages.size
  page : s.page n = .fresh h.pageSize size

theorem allocate_eq_ok (ha : s.allocate h size = (.ok n, s')) :
    n = s.pages.size ∧ s'.pages = s.pages.push (.fresh h.pageSize size) := by
  unfold allocate at ha
  cases hp : Page.allocate (h.grants s.requests) size h.pageSize with
  | error f =>
    rw [hp] at ha
    cases ha
  | ok p =>
    rw [hp, Page.allocate_eq_ok hp] at ha
    cases ha
    exact ⟨rfl, rfl⟩

theorem fresh_of_allocate (ha : s.allocate h size = (.ok n, s')) : Fresh h s' n size := by
  obtain ⟨rfl, hpages⟩ := allocate_eq_ok ha
  constructor
  · rw [hpages, Array.size_push]
    exact Nat.lt_succ_self _
  · simp [page, hpages]

theorem Fresh.allocate (hf : Fresh h s m size) (ha : s.allocate h size' = (.ok n, s')) :
    Fresh h s' m size ∧ m ≠ n := by
  obtain ⟨rfl, hpages⟩ := allocate_eq_ok ha
  have hlt := hf.lt
  refine ⟨⟨?_, ?_⟩, Nat.ne_of_lt hlt⟩
  · rw [hpages, Array.size_push]
    exact Nat.lt_succ_of_lt hlt
  · rw [← hf.page]
    simp [AddressSpace.page, hpages, Array.getD_eq_getD_getElem?, Array.getElem?_push,
      Nat.ne_of_lt hlt]

theorem page_set_self (hn : n < s.pages.size) (p : Page) : (s.set n p).page n = p := by
  simp [page, set, hn]

theorem page_set_ne (hne : m ≠ n) (p : Page) : (s.set n p).page m = s.page m := by
  simp [page, set, Array.getD_eq_getD_getElem?, hne.symm]

end AddressSpace

end OnePass
