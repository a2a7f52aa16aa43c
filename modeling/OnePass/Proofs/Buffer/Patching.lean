import OnePass.Proofs.Buffer.Regions

/-!
# Patches at any offset

A patch is guarded when it replaces bytes that have all been emitted, or is reported and changes
nothing. Bytes are guarded at every offset. For words the end is compared with the cursor in 64
bits: at the last four offsets it wraps around, and the word passes for one inside although the
region cannot hold it.
-/

set_option autoImplicit false

namespace OnePass

theorem ofLittleEndian_lt (bs : Bytes) : ofLittleEndian bs < Nat.pow 256 bs.length := by
  induction bs with
  | nil => exact Nat.one_pos
  | cons b bs ih =>
    have hb := b.toNat_lt
    have hpow : Nat.pow 256 (bs.length + 1) = 256 * Nat.pow 256 bs.length := Nat.mul_comm _ _
    rw [ofLittleEndian, List.length_cons, hpow]
    omega

theorem littleEndian_ofLittleEndian (bs : Bytes) :
    littleEndian bs.length (ofLittleEndian bs) = bs := by
  induction bs with
  | nil => rfl
  | cons b bs ih =>
    have hb := b.toNat_lt
    have hlow : (b.toNat + 256 * ofLittleEndian bs) % 256 = b.toNat := by omega
    have hhigh : (b.toNat + 256 * ofLittleEndian bs) / 256 = ofLittleEndian bs := by omega
    rw [ofLittleEndian, List.length_cons, littleEndian, hlow, hhigh, ih, UInt8.ofNat_toNat]

theorem bytes_of_halfWord {bs : Bytes} (h : bs.length = 4) :
    littleEndian 4 (UInt32.ofNat (ofLittleEndian bs)).toNat = bs := by
  have hlt := ofLittleEndian_lt bs
  rw [h] at hlt
  rw [UInt32.toNat_ofNat_of_lt' hlt, ← h]
  exact littleEndian_ofLittleEndian bs

theorem Memory.slice_inside (m : Memory) {k n stop : Nat} (h : k + n ≤ stop) :
    ((m.slice 0 stop).drop k).take n = m.slice k n := by
  obtain ⟨r, rfl⟩ := Nat.exists_eq_add_of_le h
  rw [slice_add, slice_add, Nat.zero_add, List.append_assoc, List.drop_left' (m.length_slice 0 k),
    List.take_left' (m.length_slice k n)]

namespace Buffer

variable {b : Buffer} {place : Int64} {bs : Bytes}

structure Rewritten (b : Buffer) (place : Nat) (bs : Bytes) (b' : Buffer) : Prop where
  frame : b' = { b with memory := b'.memory }
  size : b'.memory.size = b.memory.size
  inside : place + bs.length ≤ b.offset
  bytes : b'.bytes = b.bytes.take place ++ bs ++ b.bytes.drop (place + bs.length)
  beyond : ∀ i, b.offset ≤ i → b'.memory.byte i = b.memory.byte i

inductive Guarded (b : Buffer) (place : Int64) (bs : Bytes) : Except Misuse Buffer → Prop where
  | rewritten {k : Nat} {b' : Buffer} (hk : place.toInt = k) (h : Rewritten b k bs b') :
      Guarded b place bs (.ok b')
  | reported (h : ¬b.Emitted place bs.length) : Guarded b place bs
      (.ok { b with failure := some (.rejected b.name (.patchOutside place b.offset)) })

inductive ReadsBack (b : Buffer) (place : Int64) : Except Misuse UInt32 → Prop where
  | word {k : Nat} {v : UInt32} (hk : place.toInt = k) (inside : k + 4 ≤ b.offset)
      (hv : littleEndian 4 v.toNat = (b.bytes.drop k).take 4) : ReadsBack b place (.ok v)
  | zero (h : ¬b.Emitted place 4) : ReadsBack b place (.ok 0)

theorem Ready.rewritten (hb : b.Ready) {k : Nat} {bs : Bytes} (inside : k + bs.length ≤ b.offset) :
    Rewritten b k bs { b with memory := b.memory.store k bs } := by
  have hout : Outcome (.patch k bs) b { b with memory := b.memory.store k bs } :=
    .patched hb.failure hb.committed k bs rfl inside
  exact {
    frame := rfl
    size := b.memory.size_store k bs
    inside := inside
    bytes := (hout.bytes hb.failure).2
    beyond := (hout.kept hb.bounded).beyond }

theorem Ready.write_eq (hb : b.Ready) (r : Except Misuse Buffer) :
    (if b.committed then .error (.committed b.name)
      else if b.failure.isSome then .ok b else r) = r := by
  simp [hb.committed, hb.failure]

theorem Ready.fail_eq (hb : b.Ready) (c : Rejection) :
    b.fail c = { b with failure := some (.rejected b.name c) } := by
  rw [fail, hb.failure]

theorem Guarded.fail (hb : b.Ready) (h : ¬b.Emitted place bs.length) :
    Guarded b place bs (.ok (b.fail (.patchOutside place b.offset))) := by
  rw [hb.fail_eq]
  exact .reported h

/-- The end of a word at one of the last offsets is a negative number, so the word passes. -/
theorem not_wordOutside_of_endWraps (hb : b.Bounded) (h : EndWraps place) :
    ¬b.wordOutside place = true := by
  have hhigh := place.toInt_lt
  have h4 : (4 : Int64).toInt = 4 := rfl
  rw [EndWraps] at h
  have hend : (place + 4).toInt = place.toInt + 4 - (0x10000000000000000 : Nat) := by
    rw [Int64.toInt_add, h4, ← Int.sub_bmod_right, Int.bmod_eq_of_le (by omega) (by omega)]
  rw [wordOutside_iff_toInt hb, hend]
  omega

theorem patchByte_guarded (hb : b.Ready) (place : Int64) (v : UInt8) :
    Guarded b place [v] (b.patchByte place v) := by
  rw [patchByte, hb.write_eq]
  by_cases hin : b.Emitted place 1
  · obtain ⟨hk, inside⟩ := hin.toNat
    have hstore : Rewritten b place.toNatClampNeg [v]
        { b with memory := b.memory.set place.toNatClampNeg v } := hb.rewritten inside
    rw [if_neg (fun h => (byteOutside_iff hb.bounded).1 h hin)]
    exact .rewritten hk hstore
  · rw [if_pos ((byteOutside_iff hb.bounded).2 hin)]
    exact .fail hb hin

theorem patchWord_guarded (hb : b.Ready) (h : ¬EndWraps place) (v : UInt32) :
    Guarded b place (littleEndian 4 v.toNat) (b.patchWord place v) := by
  have hlength : (littleEndian 4 v.toNat).length = 4 := length_littleEndian _ _
  rw [patchWord, hb.write_eq]
  by_cases hin : b.Emitted place 4
  · obtain ⟨hk, inside⟩ := hin.toNat
    have hout : ¬b.wordOutside place = true := fun ho => (wordOutside_iff hb.bounded h).1 ho hin
    rw [if_neg hout, if_neg (word_in_region hb.bounded (Int.not_le.1 h) hout)]
    exact .rewritten hk (hb.rewritten (hlength.symm ▸ inside))
  · rw [if_pos ((wordOutside_iff hb.bounded h).2 hin)]
    exact .fail hb (hlength.symm ▸ hin)

theorem readWord_readsBack (hb : b.Bounded) (h : ¬EndWraps place) :
    ReadsBack b place (b.readWord place) := by
  rw [readWord]
  by_cases hin : b.Emitted place 4
  · obtain ⟨hk, inside⟩ := hin.toNat
    have hout : ¬b.wordOutside place = true := fun ho => (wordOutside_iff hb h).1 ho hin
    rw [if_neg hout, if_neg (word_in_region hb (Int.not_le.1 h) hout)]
    refine .word hk inside ?_
    rw [bytes_of_halfWord (b.memory.length_slice _ 4)]
    exact (b.memory.slice_inside inside).symm
  · rw [if_pos ((wordOutside_iff hb h).2 hin)]
    exact .zero hin

/-- Where the end of a word wraps around, both reading and patching it are misuses. -/
theorem word_misused (hb : b.Ready) (h : EndWraps place) :
    (∀ v : UInt32, b.patchWord place v = .error (b.wordMissing place)) ∧
      b.readWord place = .error (b.wordMissing place) := by
  have hin := not_wordOutside_of_endWraps hb.bounded h
  have hcap := capacity_lt_of_endWraps hb.bounded h
  constructor
  · intro v
    rw [patchWord, hb.write_eq, if_neg hin, if_pos hcap]
  · rw [readWord, if_neg hin, if_pos hcap]

/-- Patches of a buffer that takes writes are guarded at every 64-bit offset, and words are read
back or read as zero, unless the end of a word wraps around. Then no failure is recorded: going for
the word is a misuse. -/
theorem patches_guarded_unless_end_wraps (hb : b.Ready) (place : Int64) :
    (∀ v : UInt8, Guarded b place [v] (b.patchByte place v)) ∧
      (¬EndWraps place →
        (∀ v : UInt32, Guarded b place (littleEndian 4 v.toNat) (b.patchWord place v)) ∧
          ReadsBack b place (b.readWord place)) ∧
      (EndWraps place →
        (∀ v : UInt32, b.patchWord place v = .error (b.wordMissing place)) ∧
          b.readWord place = .error (b.wordMissing place)) :=
  ⟨patchByte_guarded hb place,
    fun h => ⟨patchWord_guarded hb h, readWord_readsBack hb.bounded h⟩, word_misused hb⟩

def fourEmitted : Buffer :=
  { create (utf8 "code") 256 0 with memory := ⟨256, #[1, 2, 3, 4]⟩, offset := 4 }

theorem append_fourEmitted :
    (create (utf8 "code") 256 0).append [1, 2, 3, 4] = .ok fourEmitted := rfl

theorem fourEmitted_ready : fourEmitted.Ready := ⟨rfl, rfl, by decide, by decide⟩

/-- The emitted word and no other can be patched; a byte can where a word cannot. -/
theorem patches_of_four_bytes :
    fourEmitted.Ready ∧
      Guarded fourEmitted 0 [4, 3, 2, 1] (fourEmitted.patchWord 0 0x01020304) ∧
      (fourEmitted.patchWord 0 0x01020304).map Buffer.bytes = .ok [4, 3, 2, 1] ∧
      Guarded fourEmitted 3 [9] (fourEmitted.patchByte 3 9) ∧
      Guarded fourEmitted 3 [9, 0, 0, 0] (fourEmitted.patchWord 3 9) ∧
      (fourEmitted.patchWord 3 9).map Buffer.failure =
        .ok (some (.rejected (utf8 "code") (.patchOutside 3 4))) ∧
      ReadsBack fourEmitted 0 (fourEmitted.readWord 0) ∧
      fourEmitted.readWord 0 = .ok 0x04030201 := by
  have hstart : ¬EndWraps 0 := by
    rw [EndWraps]
    decide
  have hlast : ¬EndWraps 3 := by
    rw [EndWraps]
    decide
  obtain ⟨-, hzero, -⟩ := patches_guarded_unless_end_wraps fourEmitted_ready 0
  obtain ⟨hbyte, hthree, -⟩ := patches_guarded_unless_end_wraps fourEmitted_ready 3
  exact ⟨fourEmitted_ready, (hzero hstart).1 0x01020304, rfl, hbyte 9, (hthree hlast).1 9, rfl,
    (hzero hstart).2, rfl⟩

/-- At the last offset the end of a word wraps around: the patch and the reading are no guarded ones
but misuses. -/
theorem word_at_last_offset_is_misused :
    (create (utf8 "code") 256 0).append [1, 2, 3, 4] = .ok fourEmitted ∧ fourEmitted.Ready ∧
      fourEmitted.patchWord 0x7fffffffffffffff 0 = .error (.bounds 0x7fffffffffffffff 256) ∧
      fourEmitted.readWord 0x7fffffffffffffff = .error (.bounds 0x7fffffffffffffff 256) ∧
      ¬Guarded fourEmitted 0x7fffffffffffffff [0, 0, 0, 0]
        (fourEmitted.patchWord 0x7fffffffffffffff 0) ∧
      ¬ReadsBack fourEmitted 0x7fffffffffffffff
        (fourEmitted.readWord 0x7fffffffffffffff) := by
  have hwraps : EndWraps 0x7fffffffffffffff := by
    rw [EndWraps]
    decide
  have hmissing : fourEmitted.wordMissing 0x7fffffffffffffff =
      .bounds 0x7fffffffffffffff 256 := by decide
  obtain ⟨hpatches, hread⟩ := word_misused fourEmitted_ready hwraps
  have hpatch := hpatches 0
  rw [hmissing] at hpatch hread
  refine ⟨append_fourEmitted, fourEmitted_ready, hpatch, hread, ?_, ?_⟩
  · rw [hpatch]
    intro h
    cases h
  · rw [hread]
    intro h
    cases h

end Buffer

end OnePass
