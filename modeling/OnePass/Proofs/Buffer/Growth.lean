import OnePass.Buffer.Writer
import OnePass.Proofs.Buffer.Bytes

/-!
# Growth of a buffer

A writer that only appends and patches leaves its buffer in one of two states: all that was meant
to be written fits and stands behind what was there, or the first overflow is recorded. Which of
the two it is depends on the length alone, so the statement composes: it is kept by every piece
that is appended and by every patch of a byte that was appended before.
-/

set_option autoImplicit false

namespace OnePass

namespace Buffer

/-- A buffer that can be written to; sizes are those of memory that a process can have. -/
structure Ready (b : Buffer) : Prop where
  failure : b.failure = none
  committed : b.committed = false
  offset_le : b.offset ≤ b.capacity
  capacity_lt : b.capacity < 0x8000000000000000

@[simp] theorem length_bytes (b : Buffer) : b.bytes.length = b.offset := by
  simp [bytes]

def Fits (b : Buffer) (n : Nat) : Prop := b.offset + n ≤ b.capacity

theorem ready_create (name : Text) {size : Nat} (base : UInt64) (h : size < 0x8000000000000000) :
    (create name size base).Ready :=
  ⟨rfl, rfl, Nat.zero_le _, h⟩

theorem fits_create_iff {name : Text} {size n : Nat} {base : UInt64} :
    (create name size base).Fits n ↔ n ≤ size := by
  unfold Fits
  rw [show (create name size base).offset = 0 from rfl, Nat.zero_add]
  rfl

end Buffer

def zerosTo (n len : Nat) : Nat := (len + n - 1) / n * n - len

theorem zerosTo_eq {n : Nat} (hn : 0 < n) (len : Nat) : zerosTo n len = (n - len % n) % n := by
  have hlen := Nat.div_add_mod' len n
  have hr := Nat.mod_lt len hn
  unfold zerosTo
  generalize len / n = q at hlen
  generalize len % n = r at hlen hr
  subst hlen
  by_cases h0 : r = 0
  · subst h0
    have hq : (q * n + 0 + n - 1) / n = q :=
      Nat.div_eq_of_lt_le (by omega) (by rw [Nat.add_mul]; omega)
    rw [hq]
    simp
  · have hq : (q * n + r + n - 1) / n = q + 1 :=
      Nat.div_eq_of_lt_le (by rw [Nat.add_mul]; omega) (by rw [Nat.add_mul, Nat.add_mul]; omega)
    rw [hq, Nat.add_mul, Nat.mod_eq_of_lt (by omega)]
    omega

def eightPadding (n : Nat) : Nat := (8 - n % 8) % 8

theorem eightPadding_eq (n : Nat) : eightPadding n = zerosTo 8 n :=
  (zerosTo_eq (by decide) n).symm

/-- The distance to the next multiple, computed in 64 bits, does not wrap around. -/
theorem Buffer.padding_eq (b : Buffer) {n : Int64} (hn : 0 < n)
    (h : b.offset < 0x8000000000000000) :
    (b.padding n).toInt = zerosTo n.toNatClampNeg b.offset := by
  have hpos : 0 < n.toInt := Int64.lt_iff_toInt_lt.1 hn
  have hk : n.toInt = (n.toNatClampNeg : Int) := (Int.toNat_of_nonneg (Int.le_of_lt hpos)).symm
  have hlt := n.toInt_lt
  generalize hd : n.toNatClampNeg = k at hk
  have hr : b.offset % k < k := Nat.mod_lt _ (by omega)
  have hm : (Int64.ofNat b.offset % n).toInt = (b.offset % k : Nat) := by
    rw [Int64.toInt_mod, Int64.toInt_ofNat_of_lt h, hk]
    rfl
  have hs : (n - Int64.ofNat b.offset % n).toInt = (k - b.offset % k : Nat) := by
    rw [Int64.toInt_sub, hm, hk, Int.bmod_eq_of_le (by omega) (by omega)]
    omega
  rw [Buffer.padding, Int64.toInt_mod, hs, hk, zerosTo_eq (by omega)]
  rfl

theorem Buffer.align_eq (b : Buffer) {n : Int64} (hn : 0 < n)
    (h : b.offset < 0x8000000000000000) :
    b.align n = b.append (List.replicate (zerosTo n.toNatClampNeg b.offset) 0) := by
  have hp := b.padding_eq hn h
  have hnat : (b.padding n).toNatClampNeg = zerosTo n.toNatClampNeg b.offset := by
    rw [Int64.toNatClampNeg, hp, Int.toNat_natCast]
  have hneg : ¬b.padding n < 0 := by
    rw [Int64.lt_iff_toInt_lt, hp]
    exact Int.not_lt.mpr (Int.natCast_nonneg _)
  have hzero : n ≠ 0 := by
    rintro rfl
    exact absurd hn (by decide)
  rw [Buffer.align, if_neg hzero]
  simp only [hneg, if_false, hnat]
  by_cases ho : b.overflows (zerosTo n.toNatClampNeg b.offset)
  · rw [if_pos ho]
    simp only [Buffer.overflows, Bool.and_eq_true, Bool.not_eq_true', decide_eq_true_eq,
      Option.isNone_iff_eq_none] at ho
    obtain ⟨⟨hc, hf⟩, hroom⟩ := ho
    simp [Buffer.append, hc, hf, hroom]
  · rw [if_neg ho]

theorem Buffer.align_eight (b : Buffer) (h : b.offset < 0x8000000000000000) :
    b.align 8 = b.append (List.replicate (eightPadding b.offset) 0) := by
  rw [b.align_eq (by decide) h, eightPadding_eq]
  rfl

theorem Writer.buffer_noteOverflow (w : Writer) (n : Nat) :
    (w.noteOverflow n).buffer = w.buffer := by
  unfold Writer.noteOverflow Writer.note
  split
  · split <;> rfl
  · rfl

theorem Writer.use_congr {w : Writer} {f g : Buffer → Except Misuse Buffer}
    (h : f w.buffer = g w.buffer) : w.use f = w.use g := by
  simp [Writer.use, h]

theorem Writer.use_ok {w : Writer} {f : Buffer → Except Misuse Buffer} {b : Buffer}
    (hm : w.misuse = none) (hf : f w.buffer = .ok b) : w.use f = { w with buffer := b } := by
  simp [Writer.use, hm, hf]

/-- The writer `w` started on the buffer `start` and was to write `added`. -/
structure Written (start : Buffer) (added : Bytes) (w : Writer) : Prop where
  misuse : w.misuse = none
  name : w.buffer.name = start.name
  base : w.buffer.base = start.base
  capacity : w.buffer.capacity = start.capacity
  committed : w.buffer.committed = false
  offset_le : w.buffer.offset ≤ start.capacity
  capacity_lt : start.capacity < 0x8000000000000000
  fits : start.Fits added.length →
    w.buffer.failure = none ∧ w.buffer.bytes = start.bytes ++ added
  overflow : ¬start.Fits added.length →
    ∃ needed, w.buffer.failure = some (.overflow start.name needed start.capacity)

namespace Written

variable {start : Buffer} {added : Bytes} {w : Writer}

theorem begin (b : Buffer) (h : b.Ready) (t : Trace) (verbose : Bool) :
    Written b [] ⟨b, t, none, verbose⟩ where
  misuse := rfl
  name := rfl
  base := rfl
  capacity := rfl
  committed := h.committed
  offset_le := h.offset_le
  capacity_lt := h.capacity_lt
  fits _ := ⟨h.failure, (List.append_nil _).symm⟩
  overflow hf := absurd h.offset_le hf

/-- As long as everything fits, the cursor stands behind it. -/
theorem offset (h : Written start added w) (hf : start.Fits added.length) :
    w.offset = start.offset + added.length := by
  have hb := congrArg List.length (h.fits hf).2
  rw [Buffer.length_bytes, List.length_append, Buffer.length_bytes] at hb
  exact hb

theorem failure_eq_none_iff (h : Written start added w) :
    w.buffer.failure = none ↔ start.Fits added.length := by
  constructor
  · intro hn
    apply Classical.byContradiction
    intro hf
    obtain ⟨needed, hs⟩ := h.overflow hf
    simp [hn] at hs
  · exact fun hf => (h.fits hf).1

theorem congr (h : Written start added w) {w' : Writer} (hb : w'.buffer = w.buffer)
    (hm : w'.misuse = none) : Written start added w' where
  misuse := hm
  name := hb ▸ h.name
  base := hb ▸ h.base
  capacity := hb ▸ h.capacity
  committed := hb ▸ h.committed
  offset_le := hb ▸ h.offset_le
  capacity_lt := h.capacity_lt
  fits := hb ▸ h.fits
  overflow := hb ▸ h.overflow

theorem note (h : Written start added w) (e : Event) : Written start added (w.note e) := by
  unfold Writer.note
  split
  · exact h.congr rfl h.misuse
  · exact h

theorem of_eq (h : Written start added w) {bytes : Bytes} (he : added = bytes) :
    Written start bytes w := he ▸ h

/-- Once the buffer has overflowed, it does not matter what was to be written. -/
theorem of_not_fits (h : Written start added w) (hf : ¬start.Fits added.length) {other : Bytes}
    (ho : ¬start.Fits other.length) : Written start other w :=
  { h with fits := fun hf' => absurd hf' ho, overflow := fun _ => h.overflow hf }

theorem of_overflow (h : Written start added w) (hf : ¬start.Fits added.length) (more : Bytes)
    (hm : added.length ≤ more.length) : Written start more w := by
  refine h.of_not_fits hf ?_
  unfold Buffer.Fits at *
  omega

/-- Once the buffer has overflowed, whatever leaves a failed buffer alone changes nothing. -/
theorem use_of_overflow (h : Written start added w) (hf : ¬start.Fits added.length)
    (more : Bytes) (hm : added.length ≤ more.length) (f : Buffer → Except Misuse Buffer)
    (hkeep : f w.buffer = .ok w.buffer) : Written start more (w.use f) := by
  rw [Writer.use_ok h.misuse hkeep]
  exact (h.of_overflow hf more hm).congr rfl h.misuse

theorem noteOverflow (h : Written start added w) (n : Nat) :
    Written start added (w.noteOverflow n) := by
  unfold Writer.noteOverflow
  split
  · exact h.note _
  · exact h

theorem use_append (h : Written start added w) (bs : Bytes) :
    Written start (added ++ bs) (w.use (·.append bs)) := by
  -- Intact before and after, overflowing just now, or overflown before.
  by_cases hf : start.Fits added.length
  · obtain ⟨hnone, hbytes⟩ := h.fits hf
    have hoff : w.buffer.offset = start.offset + added.length := h.offset hf
    have hcap : w.buffer.memory.size = start.capacity := h.capacity
    by_cases hb : start.Fits (added ++ bs).length
    · have hroom : ¬w.buffer.capacity - w.buffer.offset < bs.length := by
        simp only [Buffer.Fits, List.length_append] at hb
        rw [h.capacity, hoff]
        omega
      have happ : w.buffer.append bs = .ok { w.buffer with
          memory := w.buffer.memory.store w.buffer.offset bs
          offset := w.buffer.offset + bs.length } := by
        simp [Buffer.append, h.committed, hnone, hroom]
      rw [Writer.use_ok h.misuse happ]
      refine ⟨h.misuse, h.name, h.base, ?_, h.committed, ?_, h.capacity_lt,
        fun _ => ⟨hnone, ?_⟩, fun hb' => absurd hb hb'⟩
      · simp [Buffer.capacity, hcap]
      · change w.buffer.offset + bs.length ≤ start.capacity
        simp only [Buffer.Fits, List.length_append] at hb
        omega
      · simp only [Buffer.bytes, Memory.slice_add, Nat.zero_add, Memory.slice_store_self,
          Memory.slice_store_before _ _ _ _ (Nat.le_refl _)]
        rw [← List.append_assoc]
        exact congrArg (· ++ bs) hbytes
    · have hroom : w.buffer.capacity - w.buffer.offset < bs.length := by
        simp only [Buffer.Fits, List.length_append] at hb hf
        rw [h.capacity, hoff]
        omega
      have happ : w.buffer.append bs = .ok (w.buffer.overflow bs.length) := by
        simp [Buffer.append, h.committed, hnone, hroom]
      rw [Writer.use_ok h.misuse happ]
      exact ⟨h.misuse, h.name, h.base, h.capacity, h.committed, h.offset_le, h.capacity_lt,
        fun hb' => absurd hb' hb,
        fun _ => ⟨w.buffer.offset + bs.length, by simp [Buffer.overflow, h.name, h.capacity]⟩⟩
  · obtain ⟨needed, hs⟩ := h.overflow hf
    exact h.use_of_overflow hf _ (by simp) _ (by simp [Buffer.append, h.committed, hs])

theorem append (h : Written start added w) (bs : Bytes) :
    Written start (added ++ bs) (w.append bs) :=
  (h.noteOverflow bs.length).use_append bs

theorem appendAll (h : Written start added w) (pieces : List Bytes) :
    Written start (added ++ pieces.flatten) (w.appendAll pieces) := by
  induction pieces generalizing added w with
  | nil => simpa [Writer.appendAll] using h
  | cons p ps ih =>
    have hp := ih (h.append p)
    simpa [Writer.appendAll, List.append_assoc] using hp

theorem align_eight (h : Written start added w) :
    Written start (added ++ List.replicate (eightPadding (start.offset + added.length)) 0)
      (w.align 8) := by
  have hn := h.noteOverflow (w.buffer.padding 8).toNatClampNeg
  have hb := w.buffer_noteOverflow (w.buffer.padding 8).toNatClampNeg
  have ha : Written start (added ++ List.replicate (eightPadding w.buffer.offset) 0)
      (w.align 8) := by
    rw [Writer.align,
      Writer.use_congr (g := (·.append (List.replicate (eightPadding w.buffer.offset) 0)))]
    · exact hn.use_append _
    · rw [hb]
      exact w.buffer.align_eight (Nat.lt_of_le_of_lt h.offset_le h.capacity_lt)
  by_cases hf : start.Fits added.length
  · rwa [show w.buffer.offset = start.offset + added.length from h.offset hf] at ha
  · have hlong : ∀ n, ¬start.Fits (added ++ List.replicate n 0).length := by
      intro n
      simp only [Buffer.Fits, List.length_append] at *
      omega
    exact ha.of_not_fits (hlong _) (hlong _)

/-- Patching replaces bytes that were written before by as many others. -/
theorem use_patch {A old B : Bytes} (h : Written start (A ++ old ++ B) w) (new : Bytes)
    (hlen : new.length = old.length) (f : Buffer → Except Misuse Buffer)
    (hpatch : start.Fits (A ++ old ++ B).length → f w.buffer =
      .ok { w.buffer with memory := w.buffer.memory.store (start.offset + A.length) new })
    (hkeep : w.buffer.failure.isSome → f w.buffer = .ok w.buffer) :
    Written start (A ++ new ++ B) (w.use f) := by
  have hsame : (A ++ new ++ B).length = (A ++ old ++ B).length := by simp [hlen]
  by_cases hf : start.Fits (A ++ old ++ B).length
  · obtain ⟨hnone, hbytes⟩ := h.fits hf
    rw [Writer.use_ok h.misuse (hpatch hf)]
    refine ⟨h.misuse, h.name, h.base, ?_, h.committed, h.offset_le, h.capacity_lt,
      fun _ => ⟨hnone, ?_⟩, fun hn => absurd (hsame ▸ hf) hn⟩
    · simpa [Buffer.capacity] using h.capacity
    · have hmid := Memory.slice_store_middle w.buffer.memory w.buffer.offset
        (start.bytes ++ A) old new B
        hlen.symm (by simpa [Buffer.bytes, List.append_assoc] using hbytes)
      simpa [Buffer.bytes, List.append_assoc] using hmid
  · obtain ⟨needed, hs⟩ := h.overflow hf
    exact h.use_of_overflow hf _ (Nat.le_of_eq hsame.symm) f (hkeep (by simp [hs]))

theorem patchByte {A B : Bytes} {b : UInt8} (h : Written start (A ++ b :: B) w) (v : UInt8)
    {place : Int64} (hp : start.Fits (A ++ b :: B).length →
      place = Int64.ofNat (start.offset + A.length)) :
    Written start (A ++ v :: B) (w.patchByte place v) := by
  have h' : Written start (A ++ [b] ++ B) w := by simpa using h
  have hA : A ++ b :: B = A ++ [b] ++ B := by simp
  rw [show A ++ v :: B = A ++ [v] ++ B by simp]
  apply h'.use_patch [v] rfl
  · intro hf
    have hlt := Nat.lt_of_le_of_lt h.offset_le h.capacity_lt
    have hoff : w.buffer.offset = start.offset + (A ++ [b] ++ B).length := h'.offset hf
    have hin : start.offset + A.length < w.buffer.offset := by
      simp only [List.length_append, List.length_cons] at hoff
      omega
    have hplace := hp (hA ▸ hf)
    have hint : place.toInt = (start.offset + A.length : Nat) := by
      rw [hplace, Int64.toInt_ofNat_of_lt (by omega)]
    have hout : ¬(place < 0 ∨ place ≥ Int64.ofNat w.buffer.offset) := by
      rw [Int64.lt_iff_toInt_lt, ge_iff_le, Int64.le_iff_toInt_le, hint,
        Int64.toInt_ofNat_of_lt hlt]
      have : (0 : Int64).toInt = 0 := rfl
      omega
    simp only [Buffer.patchByte, h.committed, (h'.fits hf).1, Option.isSome_none,
      Bool.false_eq_true, if_false, hout]
    rw [Int64.toNatClampNeg, hint, Int.toNat_natCast]
    rfl
  · intro hs
    simp [Buffer.patchByte, h.committed, hs]

theorem word_inside {A old B : Bytes} (h : Written start (A ++ old ++ B) w) (hold : old.length = 4)
    {place : Int64} (hf : start.Fits (A ++ old ++ B).length)
    (hp : place = Int64.ofNat (start.offset + A.length)) :
    w.buffer.wordOutside place = false ∧ place.toNatClampNeg = start.offset + A.length ∧
      start.offset + A.length + 4 ≤ w.buffer.capacity := by
  have hlt := Nat.lt_of_le_of_lt h.offset_le h.capacity_lt
  have hoff : w.buffer.offset = start.offset + (A ++ old ++ B).length := h.offset hf
  have hin : start.offset + A.length + 4 ≤ w.buffer.offset := by
    simp only [List.length_append] at hoff
    omega
  have hle := h.offset_le
  have hint : place.toInt = (start.offset + A.length : Nat) := by
    rw [hp, Int64.toInt_ofNat_of_lt (by omega)]
  have hend : (place + 4).toInt = (start.offset + A.length + 4 : Nat) := by
    have h4 : (4 : Int64).toInt = 4 := rfl
    rw [Int64.toInt_add, hint, h4, Int.bmod_eq_of_le (by omega) (by omega)]
    rfl
  have hnat : place.toNatClampNeg = start.offset + A.length := by
    rw [Int64.toNatClampNeg, hint, Int.toNat_natCast]
  refine ⟨?_, hnat, by rw [h.capacity]; omega⟩
  have hneg : ¬place < 0 := by
    rw [Int64.lt_iff_toInt_lt, hint]
    exact Int.not_lt.mpr (Int.natCast_nonneg _)
  have hbeyond : ¬Int64.ofNat w.buffer.offset < place + 4 := by
    rw [Int64.lt_iff_toInt_lt, hend, Int64.toInt_ofNat_of_lt hlt]
    omega
  simp [Buffer.wordOutside, hneg, hbeyond]

theorem patchWord {A old B : Bytes} (h : Written start (A ++ old ++ B) w) (hold : old.length = 4)
    (v : UInt32) {place : Int64} (hp : start.Fits (A ++ old ++ B).length →
      place = Int64.ofNat (start.offset + A.length)) :
    Written start (A ++ littleEndian 4 v.toNat ++ B) (w.patchWord place v) := by
  apply h.use_patch (littleEndian 4 v.toNat) (by simp [hold])
  · intro hf
    obtain ⟨hout, hnat, hcap⟩ := h.word_inside hold hf (hp hf)
    simp [Buffer.patchWord, h.committed, (h.fits hf).1, hout, hnat, hcap]
  · intro hs
    simp [Buffer.patchWord, h.committed, hs]

theorem readWord {A old B : Bytes} (h : Written start (A ++ old ++ B) w) (hold : old.length = 4)
    {place : Int64} (hf : start.Fits (A ++ old ++ B).length)
    (hp : place = Int64.ofNat (start.offset + A.length)) :
    w.buffer.readWord place = .ok (UInt32.ofNat (ofLittleEndian old)) := by
  obtain ⟨hout, hnat, hcap⟩ := h.word_inside hold hf hp
  have hbytes : w.buffer.memory.slice 0 w.buffer.offset = (start.bytes ++ A) ++ old ++ B := by
    have := (h.fits hf).2
    rwa [Buffer.bytes, ← List.append_assoc, ← List.append_assoc] at this
  have hslice := Memory.slice_middle w.buffer.memory w.buffer.offset (start.bytes ++ A) old B hbytes
  simp only [List.length_append, Buffer.length_bytes, hold] at hslice
  simp [Buffer.readWord, hout, hnat, hcap, hslice]

end Written

end OnePass
