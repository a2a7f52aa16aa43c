import OnePass.Proofs.Buffer.Regions
import OnePass.Proofs.X86.Encoding
import OnePass.Proofs.X86.Rejection

/-!
# Where short jumps lead

A short jump that has landed leads to the offset at which it was landed, whatever was written in
between, and one that is written backwards leads to the offset that it was given. A distance that
does not fit into its byte is recorded as a failure.
-/

set_option autoImplicit false

namespace OnePass.X86

open Writer (Intact Usable Keeps Sound)

inductive Step where
  | emit (i : Named)
  | jumpForward (opcode : UInt8) (label : Text)
  | jumpBack (opcode : UInt8) (label : Text) (target : Int64)
  | land (place : Int64)
  deriving DecidableEq, Repr

namespace Step

def run (w : Writer) : Step → Writer
  | .emit i => X86.emit w i
  | .jumpForward opcode label => (X86.jumpForward w opcode label).2
  | .jumpBack opcode label target => X86.jumpBack w opcode label target
  | .land place => X86.land w place

def Spares (start stop : Nat) : Step → Prop
  | .land place => ¬((start : Int) ≤ place.toInt ∧ place.toInt < stop)
  | _ => True

end Step

section Keeping

variable {start stop : Nat} {w : Writer}

theorem keeps_emit (h : w.Sound) (i : Named) : Keeps start stop w (emit w i) := by
  have hfail : Keeps start stop w _ := h.failAll (i.operands.filterMap Operand.rejection?)
  unfold emit
  cases longBase? i with
  | none =>
    have hnote : Keeps start stop w (noteLine _ (.plain i)) := hfail.trans (hfail.sound.note _)
    exact hnote.trans (hnote.sound.appendAll _)
  | some base => exact hfail.trans (hfail.sound.fail _)

theorem keeps_land (h : w.Sound) {place : Int64}
    (hspares : ¬((start : Int) ≤ place.toInt ∧ place.toInt < stop)) :
    Keeps start stop w (land w place) := by
  unfold land
  dsimp only
  split
  · exact h.patchByte _ hspares
  · exact h.fail _

theorem Step.keeps (h : w.Sound) {s : Step} (hs : s.Spares start stop) :
    Keeps start stop w (s.run w) := by
  cases s with
  | emit i => exact keeps_emit h i
  | jumpForward opcode label => exact h.append_noted _ _
  | jumpBack opcode label target =>
    simp only [Step.run, X86.jumpBack]
    split
    · exact h.append_noted _ _
    · exact h.fail _
  | land place => exact keeps_land h hs

theorem keeps_steps (h : w.Sound) {steps : List Step} (hs : ∀ s ∈ steps, s.Spares start stop) :
    Keeps start stop w (steps.foldl Step.run w) :=
  .foldl h steps fun _ hu s hmem => s.keeps hu (hs s hmem)

end Keeping

theorem toInt_of_fitsByte {d : Int64} (h : fitsByte d = true) : d.toInt8.toInt = d.toInt := by
  obtain ⟨hlow, hhigh⟩ := (fitsByte_iff d).1 h
  rw [Int64.toInt_toInt8, Int.bmod_eq_of_le (by omega) (by omega)]

structure JumpsTo (code : Bytes) (start : Nat) (opcode : UInt8) (d : Int8) (target : Int) :
    Prop where
  distance : (start : Int) + 2 + d.toInt = target
  bytes : ∃ rest, code.drop start = opcode :: d.toUInt8 :: rest ∧
    (isShortJump opcode = true → decode (code.drop start) = some (.jump opcode d, rest))

theorem JumpsTo.of_bytes {code rest : Bytes} {start : Nat} {opcode : UInt8} {d : Int8}
    {target : Int} (distance : (start : Int) + 2 + d.toInt = target)
    (hcode : code.drop start = opcode :: d.toUInt8 :: rest) :
    JumpsTo code start opcode d target := by
  refine ⟨distance, rest, hcode, fun hshort => ?_⟩
  rw [hcode]
  exact Instr.decode_jump opcode d hshort rest

structure JumpLanded (start : Nat) (opcode : UInt8) (u v : Writer) : Prop where
  misuse : v.misuse = none
  intact_iff : v.Intact ↔ u.Intact ∧ u.offset ≤ start + 129
  exact : v.Intact → ∃ d : Int8, v.buffer.bytes = u.buffer.bytes.set (start + 1) d.toUInt8 ∧
    JumpsTo v.buffer.bytes start opcode d u.offset

section Forward

variable {w u : Writer} {opcode : UInt8} {label : Text}

theorem jumpForward_sound (h : w.Sound) (opcode : UInt8) (label : Text) :
    (jumpForward w opcode label).2.Sound := by
  have hkeeps : Keeps 0 0 w (jumpForward w opcode label).2 := h.append_noted _ _
  exact hkeeps.sound

theorem jumpForward_bytes (h : w.Sound) (hi : (jumpForward w opcode label).2.Intact) :
    (jumpForward w opcode label).2.buffer.bytes = w.buffer.bytes ++ [opcode, 0] ∧
      (jumpForward w opcode label).2.offset = w.offset + 2 ∧
      (jumpForward w opcode label).1.toInt = w.offset + 1 := by
  obtain ⟨hbytes, hoffset⟩ := h.bytes_append hi
  refine ⟨hbytes, hoffset, ?_⟩
  have hplace : (jumpForward w opcode label).1.toInt = (jumpForward w opcode label).2.offset - 1 :=
    (jumpForward_sound h opcode label).toInt_offset_sub (k := 1) (by decide)
  rw [hplace, show (jumpForward w opcode label).2.offset = w.offset + 2 from hoffset]
  omega

theorem drop_set_second {s : Bytes} {start : Nat} {a : UInt8} (hlength : start + 2 ≤ s.length)
    (ha : s[start]? = some a) (v : UInt8) :
    (s.set (start + 1) v).drop start = a :: v :: s.drop (start + 2) := by
  obtain ⟨hlt, rfl⟩ := List.getElem?_eq_some_iff.1 ha
  rw [List.drop_set, if_neg (by omega), List.drop_eq_getElem_cons hlt,
    List.drop_eq_getElem_cons (show start + 1 < s.length by omega), Nat.add_sub_cancel_left]
  rfl

theorem land_landed {start : Nat} {place : Int64} (h : u.Sound) (hplace : place.toInt = start + 1)
    (hoffset : start + 2 ≤ u.offset) (hopcode : u.buffer.memory.byte start = opcode) :
    JumpLanded start opcode u (land u place) := by
  have hlt : u.offset < 0x8000000000000000 := h.bounded.offset_lt
  have hbehind : (place + 1).toInt = start + 2 := by
    have h1 : (1 : Int64).toInt = 1 := rfl
    rw [Int64.toInt_add, hplace, h1, Int.bmod_eq_of_le (by omega) (by omega)]
    omega
  have hdistance := h.toInt_offset_sub (k := place + 1) (by omega)
  rw [hbehind] at hdistance
  unfold land
  dsimp only
  generalize Int64.ofNat u.offset - (place + 1) = distance at hdistance
  have hreach : fitsByte distance = true ↔ u.offset ≤ start + 129 := by
    rw [fitsByte_iff]
    omega
  by_cases hfits : fitsByte distance = true
  · rw [if_pos hfits]
    obtain ⟨hmisuse, hintact, hbytes⟩ :=
      h.patchByte_inside (k := start + 1) hplace hoffset distance.toInt8.toUInt8
    refine ⟨hmisuse, ?_, fun hi => ⟨distance.toInt8, hbytes hi, ?_⟩⟩
    · rw [hintact]
      exact ⟨fun hi => ⟨hi, hreach.1 hfits⟩, And.left⟩
    · have hcode : (u.buffer.bytes.set (start + 1) distance.toInt8.toUInt8).drop start =
          opcode :: distance.toInt8.toUInt8 :: u.buffer.bytes.drop (start + 2) := by
        apply drop_set_second (by rw [Buffer.length_bytes]; exact hoffset)
        rw [Buffer.getElem?_bytes (Nat.lt_of_succ_lt hoffset), hopcode]
      rw [hbytes hi]
      exact .of_bytes (by rw [toInt_of_fitsByte hfits]; omega) hcode
  · rw [if_neg hfits]
    have hnot := h.usable.not_intact_fail (.jumpDistance none distance.toInt)
    refine ⟨(h.usable.fail _).misuse, ?_, fun hi => absurd hi hnot⟩
    exact iff_of_false hnot fun hi => hfits (hreach.2 hi.2)

theorem jumpForward_landed (h : w.Sound) {steps : List Step}
    (hs : ∀ s ∈ steps, s.Spares w.offset (w.offset + 2)) :
    JumpLanded w.offset opcode (steps.foldl Step.run (jumpForward w opcode label).2)
      (land (steps.foldl Step.run (jumpForward w opcode label).2)
        (jumpForward w opcode label).1) := by
  have hfirst := jumpForward_sound h opcode label
  have hrun : Keeps w.offset (w.offset + 2) _ _ := keeps_steps hfirst hs
  by_cases hi : (jumpForward w opcode label).2.Intact
  · obtain ⟨hbytes, hoffset, hplace⟩ := jumpForward_bytes h hi
    have hgrows := hrun.grows
    rw [hoffset] at hgrows
    have hbyte := Buffer.byte_of_bytes hbytes
    rw [Buffer.length_bytes] at hbyte
    refine land_landed hrun.sound hplace hgrows ?_
    rw [hrun.bytes w.offset (Nat.le_refl _) (by omega) (by omega)]
    exact hbyte
  · have hu := mt hrun.intact hi
    have hv : ¬(land _ (jumpForward w opcode label).1).Intact := mt intact_of_land hu
    have hland : Keeps 0 0 _ (land _ (jumpForward w opcode label).1) :=
      keeps_land hrun.sound (by omega)
    exact ⟨hland.sound.usable.misuse, iff_of_false hv fun h => hu h.1, fun h => absurd h hv⟩

end Forward

structure JumpedBack (opcode : UInt8) (target : Nat) (w v : Writer) : Prop where
  misuse : v.misuse = none
  intact_iff : v.Intact ↔ w.Intact ∧ w.buffer.Fits 2 ∧ w.offset ≤ target + 126
  exact : v.Intact → ∃ d : Int8, v.buffer.bytes = w.buffer.bytes ++ [opcode, d.toUInt8] ∧
    JumpsTo v.buffer.bytes w.offset opcode d target

theorem toInt_distance_back {w : Writer} {target : Nat} (h : w.Sound) (htarget : target ≤ w.offset)
    (hroom : w.buffer.Fits 2) :
    (Int64.ofNat target - (Int64.ofNat w.offset + 2)).toInt = target - (w.offset + 2) := by
  have hlt : w.offset + 2 < 0x8000000000000000 :=
    Nat.lt_of_le_of_lt hroom h.bounded.capacity_lt
  have h2 : (2 : Int64).toInt = 2 := rfl
  rw [Int64.toInt_sub, Int64.toInt_add, Int64.toInt_ofNat_of_lt (by omega),
    Int64.toInt_ofNat_of_lt (by omega), h2,
    Int.bmod_eq_of_le (n := w.offset + 2) (by omega) (by omega),
    Int.bmod_eq_of_le (by omega) (by omega)]

theorem jumpBack_jumped {w : Writer} {target : Nat} (h : w.Sound) (htarget : target ≤ w.offset)
    (opcode : UInt8) (label : Text) :
    JumpedBack opcode target w (jumpBack w opcode label (Int64.ofNat target)) := by
  have hdistance := toInt_distance_back h htarget
  unfold jumpBack
  dsimp only
  generalize Int64.ofNat target - (Int64.ofNat w.offset + 2) = distance at hdistance
  by_cases hfits : fitsByte distance = true
  · rw [if_pos hfits]
    have hreach := (fitsByte_iff distance).1 hfits
    have hintact := h.intact_append_iff (.x86 w.offset (.backward label distance.toInt))
      [opcode, distance.toInt8.toUInt8]
    have hkeeps : Keeps 0 0 w ((noteLine w (.backward label distance.toInt)).append
        [opcode, distance.toInt8.toUInt8]) := h.append_noted _ _
    refine ⟨hkeeps.sound.usable.misuse, ?_, fun hi => ?_⟩
    · rw [noteLine, hintact]
      constructor
      · rintro ⟨hi, hroom⟩
        rw [hdistance hroom] at hreach
        exact ⟨hi, hroom, by omega⟩
      · exact fun hi => ⟨hi.1, hi.2.1⟩
    · have hbytes := (h.bytes_append hi).1
      refine ⟨distance.toInt8, hbytes, ?_⟩
      rw [noteLine, hbytes]
      have hcode : (w.buffer.bytes ++ [opcode, distance.toInt8.toUInt8]).drop w.offset =
          [opcode, distance.toInt8.toUInt8] := List.drop_left' (Buffer.length_bytes w.buffer)
      refine .of_bytes ?_ hcode
      rw [toInt_of_fitsByte hfits, hdistance (hintact.1 hi).2]
      omega
  · rw [if_neg hfits]
    have hnot := h.usable.not_intact_fail (.jumpDistance (some label) distance.toInt)
    refine ⟨(h.usable.fail _).misuse, iff_of_false hnot ?_, fun hi => absurd hi hnot⟩
    rintro ⟨-, hroom, hreach⟩
    rw [fitsByte_iff, hdistance hroom] at hfits
    omega

end OnePass.X86
