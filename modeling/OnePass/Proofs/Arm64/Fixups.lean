import OnePass.Proofs.Arm64.Rejection
import OnePass.Proofs.Buffer.Regions

/-!
# Where branches lead

A branch holds its distance in a field of 14, 19 or 26 bits. Landing a branch sets this field and
nothing else, but to what the field can hold of the distance: a distance that does not fit is cut
to the width of the field, and nothing is recorded. So a branch leads where it was landed just if
that is in its reach.
-/

set_option autoImplicit false

namespace OnePass.Arm64

open Writer (Intact Usable Keeps Sound)

/-- What a field of `width` bits holds of a distance `n`. -/
structure CutTo (width : Nat) (n d : Int) : Prop where
  reachable : Reachable d width
  congruent : d % Nat.pow 2 width = n % Nat.pow 2 width
  exact_iff : d = n ↔ Reachable n width

namespace Instr

def distanceWidth : Resolved → Nat
  | .b _ => 26
  | .bCond _ _ | .cbz _ _ => 19
  | .tbzBit0 _ _ => 14
  | _ => 0

def IsBranch : Resolved → Prop
  | .b _ | .cbz _ _ | .tbzBit0 _ _ => True
  | .bCond condition _ => condition < 16
  | _ => False

theorem Unaimed.isBranch {i : Resolved} (h : i.Unaimed) : i.IsBranch := by
  cases i with
  | bCond => exact h.1
  | cbz | tbzBit0 => trivial
  | _ => exact h.elim

end Instr

theorem distanceField_congr {d d' : Int} {width : Nat}
    (h : d % Nat.pow 2 width = d' % Nat.pow 2 width) :
    distanceField d width = distanceField d' width := by
  rw [distanceField, distanceField, h]

theorem exists_cutTo {width : Nat} (hw : 0 < width) (n : Int) : ∃ d, CutTo width n d := by
  have hpos : 0 < Nat.pow 2 (width - 1) := Nat.pow_pos (by decide)
  have hhalf : Nat.pow 2 width = 2 * Nat.pow 2 (width - 1) := by
    obtain ⟨k, rfl⟩ := Nat.exists_eq_succ_of_ne_zero (Nat.ne_of_gt hw)
    exact Nat.pow_succ'
  have hreach : Reachable
      ((n + Nat.pow 2 (width - 1)) % Nat.pow 2 width - Nat.pow 2 (width - 1)) width := by
    have hlow := Int.emod_nonneg (n + Nat.pow 2 (width - 1)) (b := Nat.pow 2 width) (by omega)
    have hhigh := Int.emod_lt_of_pos (n + Nat.pow 2 (width - 1)) (b := Nat.pow 2 width) (by omega)
    unfold Reachable
    omega
  refine ⟨_, hreach, ?_, fun h => h ▸ hreach, fun h => ?_⟩
  · rw [Int.emod_sub_emod]
    congr 1
    omega
  · unfold Reachable at h
    rw [Int.emod_eq_of_lt (by omega) (by omega)]
    omega

namespace Instr

theorem word_withDistance_congr {i : Resolved} (h : i.IsBranch) {d d' : Int}
    (hd : d % Nat.pow 2 i.distanceWidth = d' % Nat.pow 2 i.distanceWidth) :
    (i.withDistance d).word = (i.withDistance d').word := by
  have hfield := distanceField_congr hd
  cases i with
  | b | bCond | cbz | tbzBit0 =>
    simp only [distanceWidth] at hfield
    simp only [withDistance, word, hfield]
  | _ => exact h.elim

theorem encodable_withDistance {i : Resolved} (h : i.IsBranch) {d : Int}
    (hd : Reachable d i.distanceWidth) : (i.withDistance d).Encodable := by
  cases i with
  | b | cbz | tbzBit0 => exact hd
  | bCond => exact ⟨h, hd⟩
  | _ => exact h.elim

theorem distanceWidth_pos {i : Resolved} (h : i.IsBranch) : 0 < i.distanceWidth := by
  cases i with
  | b | bCond | cbz | tbzBit0 => simp [distanceWidth]
  | _ => exact h.elim

theorem distanceWidth_le (i : Resolved) : i.distanceWidth ≤ 30 := by
  cases i <;> simp [distanceWidth]

/-- A branch over any distance is read as the branch over what its field holds of it. -/
theorem decode_withDistance {i : Resolved} (h : i.IsBranch) (n : Int) :
    ∃ d, decode (i.withDistance n).word = some (i.withDistance d) ∧
      CutTo i.distanceWidth n d := by
  obtain ⟨d, hd⟩ := exists_cutTo (distanceWidth_pos h) n
  refine ⟨d, ?_, hd⟩
  rw [← word_withDistance_congr h hd.congruent]
  exact decode_word (encodable_withDistance h hd.reachable)

end Instr

/-- In 32 bits, a distance is known up to multiples of `2^30` instructions. -/
theorem instructionDistance_eq {bytes : Int64} {n : Int} (h : bytes.toInt = 4 * n) :
    ∃ k, (instructionDistance bytes).toInt = n + k * 0x40000000 := by
  have h4 : (4 : Int32).toInt = 4 := rfl
  have hlow := bytes.toInt32.le_toInt
  have hhigh := bytes.toInt32.toInt_lt
  obtain ⟨k, hk⟩ : ∃ k, bytes.toInt32.toInt = 4 * (n + k * 0x40000000) := by
    have hmod : bytes.toInt32.toInt % 0x100000000 = 4 * n % 0x100000000 := by
      rw [Int64.toInt_toInt32, h]
      exact Int.bmod_emod
    exact ⟨(bytes.toInt32.toInt - 4 * n) / 0x100000000, by omega⟩
  refine ⟨k, ?_⟩
  rw [instructionDistance, Int32.toInt_div, hk, h4, Int.mul_tdiv_cancel_left _ (by decide),
    Int.bmod_eq_of_le (by omega) (by omega)]

theorem word_of_instructionDistance {i : Resolved} (h : i.IsBranch) {bytes : Int64} {n : Int}
    (hn : bytes.toInt = 4 * n) :
    (i.withDistance (instructionDistance bytes).toInt).word = (i.withDistance n).word := by
  obtain ⟨k, hk⟩ := instructionDistance_eq hn
  obtain ⟨m, hm⟩ : Nat.pow 2 i.distanceWidth ∣ 0x40000000 :=
    Nat.pow_dvd_pow 2 (Instr.distanceWidth_le i)
  have hcast : (0x40000000 : Int) = Nat.pow 2 i.distanceWidth * m :=
    (congrArg Int.ofNat hm).trans (Int.natCast_mul _ _)
  apply Instr.word_withDistance_congr h
  rw [hk, hcast, Int.mul_left_comm, Int.add_mul_emod_self_left]

inductive Step where
  | emit (i : Named)
  | branchBack (target : Int64)
  | land (place : Int64)
  deriving DecidableEq, Repr

namespace Step

def run (w : Writer) : Step → Writer
  | .emit i => Arm64.emit w i
  | .branchBack target => Arm64.branchBack w target
  | .land place => Arm64.land w place

/-- The step lands no branch that has a byte from `start` up to `stop`, nor one at the very last
offsets that there are. -/
def Spares (start stop : Nat) : Step → Prop
  | .land place => (place.toInt + 4 ≤ start ∨ stop ≤ place.toInt) ∧
    place.toInt + 4 < 0x8000000000000000
  | _ => True

end Step

section Keeping

variable {start stop : Nat} {w : Writer}

theorem keeps_emit (h : w.Sound) (i : Named) : Keeps start stop w (emit w i) := by
  have hfail : Keeps start stop w _ := h.failAll (i.operands.filterMap Operand.rejection?)
  exact hfail.trans (hfail.sound.append_noted _ _)

theorem keeps_land (h : w.Sound) {place : Int64}
    (hplace : place.toInt + 4 < 0x8000000000000000)
    (hspares : place.toInt + 4 ≤ start ∨ stop ≤ place.toInt) :
    Keeps start stop w (land w place) := by
  obtain ⟨word, hword⟩ : ∃ word, w.buffer.readWord place = .ok word := by
    by_cases hout : w.buffer.wordOutside place = true
    · exact ⟨0, by rw [Buffer.readWord, if_pos hout]⟩
    · exact ⟨_, by rw [Buffer.readWord, if_neg hout,
        if_neg (Buffer.word_in_region h.bounded hplace hout)]⟩
  rw [land, hword]
  dsimp only
  split
  · exact h.patchWord _ hplace hspares
  · exact h.fail _

theorem Step.keeps (h : w.Sound) {s : Step} (hs : s.Spares start stop) :
    Keeps start stop w (s.run w) := by
  cases s with
  | emit i => exact keeps_emit h i
  | branchBack target => exact keeps_emit h _
  | land place => exact keeps_land h hs.2 hs.1

theorem keeps_steps (h : w.Sound) {steps : List Step} (hs : ∀ s ∈ steps, s.Spares start stop) :
    Keeps start stop w (steps.foldl Step.run w) :=
  .foldl h steps fun _ hu s hmem => s.keeps hu (hs s hmem)

end Keeping

section Writing

variable {w : Writer}

theorem emit_eq {i : Named} {r : Resolved} (hr : i.resolve? = some r) (w : Writer) :
    emit w i = (w.note (.arm64 w.offset i)).append (littleEndian 4 r.word.toNat) := by
  rw [emit, rejections_eq_nil hr, hr]
  rfl

theorem emit_bytes (h : w.Sound) {i : Named} (hi : (emit w i).Intact) :
    ∃ r, i.resolve? = some r ∧
      (emit w i).buffer.bytes = w.buffer.bytes ++ littleEndian 4 r.word.toNat ∧
      (emit w i).offset = w.offset + 4 := by
  obtain ⟨r, hr⟩ := Option.isSome_iff_exists.1 (accepted_of_emit h.usable hi).isSome_resolve?
  rw [emit_eq hr] at hi ⊢
  obtain ⟨hbytes, hoffset⟩ := h.bytes_append hi
  rw [length_littleEndian] at hoffset
  exact ⟨r, hr, hbytes, hoffset⟩

theorem offset_land (w : Writer) (place : Int64) : (land w place).offset = w.offset := by
  unfold land
  cases w.buffer.readWord place with
  | error m => exact Writer.offset_use (by simp)
  | ok word =>
    dsimp only
    split
    · exact Writer.offset_use fun b hb => Buffer.offset_patchWord hb
    · apply Writer.offset_use
      intro b hb
      cases hb
      exact Buffer.offset_fail _ _

theorem Step.offset (h : w.Sound) {s : Step} (hi : (s.run w).Intact) :
    ∃ n, (s.run w).offset = w.offset + 4 * n := by
  cases s with
  | emit i =>
    obtain ⟨r, -, -, hoffset⟩ := emit_bytes h hi
    exact ⟨1, hoffset⟩
  | branchBack target =>
    obtain ⟨r, -, -, hoffset⟩ := emit_bytes h hi
    exact ⟨1, hoffset⟩
  | land place => exact ⟨0, offset_land w place⟩

theorem offset_steps {start stop : Nat} (h : w.Sound) {steps : List Step}
    (hs : ∀ s ∈ steps, s.Spares start stop) (hi : (steps.foldl Step.run w).Intact) :
    ∃ n, (steps.foldl Step.run w).offset = w.offset + 4 * n := by
  induction steps generalizing w with
  | nil => exact ⟨0, rfl⟩
  | cons s steps ih =>
    rw [List.forall_mem_cons] at hs
    have hfirst := s.keeps h hs.1
    have hrest := keeps_steps hfirst.sound hs.2
    obtain ⟨m, hm⟩ := Step.offset h (hrest.intact hi)
    obtain ⟨n, hn⟩ := ih hfirst.sound hs.2 hi
    exact ⟨m + n, by rw [List.foldl_cons, hn, hm]; omega⟩

end Writing

inductive Forward : Named → Prop where
  | bCond {condition : UInt32} (h : condition < 16) : Forward (.bCond condition 0)
  | cbz (t : Text) : Forward (.cbz t 0)
  | tbzBit0 (t : Text) : Forward (.tbzBit0 t 0)

theorem Forward.unaimed {i : Named} {r : Resolved} (h : Forward i) (hr : i.resolve? = some r) :
    r.Unaimed := by
  cases h with
  | bCond h =>
    cases hr
    exact ⟨h, rfl⟩
  | cbz t | tbzBit0 t =>
    obtain ⟨g, -, hg⟩ := Option.bind_eq_some_iff.1 hr
    cases hg
    rfl

structure BranchLanded (start : Nat) (i : Named) (u v : Writer) : Prop where
  misuse : v.misuse = none
  intact_iff : v.Intact ↔ u.Intact
  aimed : v.Intact → ∃ (r : Resolved) (n : Nat) (word : UInt32) (d : Int),
    i.resolve? = some r ∧ u.offset = start + 4 * n ∧
    v.buffer.bytes = u.buffer.bytes.take start ++ littleEndian 4 word.toNat ++
      u.buffer.bytes.drop (start + 4) ∧
    decode word = some (r.withDistance d) ∧ CutTo r.distanceWidth n d

section Forward

variable {w u : Writer} {i : Named} {r : Resolved}

theorem land_landed {start n : Nat} {place : Int64} (h : u.Sound) (hr : i.resolve? = some r)
    (hforward : Forward i) (hplace : place.toInt = start) (hn : 0 < n)
    (hoffset : u.offset = start + 4 * n)
    (hword : u.buffer.memory.slice start 4 = littleEndian 4 r.word.toNat) :
    BranchLanded start i u (land u place) := by
  have hunaimed := hforward.unaimed hr
  have hdistance : (Int64.ofNat u.offset - place).toInt = 4 * (n : Int) := by
    rw [h.toInt_offset_sub (by omega), hplace]
    omega
  have hread := h.readWord_inside hplace (by omega) hword
  rw [land, hread]
  simp only [Instr.setDistance_withDistance hunaimed,
    word_of_instructionDistance hunaimed.isBranch hdistance]
  obtain ⟨d, hdecode, hcut⟩ := Instr.decode_withDistance hunaimed.isBranch n
  obtain ⟨hmisuse, hintact, hbytes⟩ :=
    h.patchWord_inside hplace (by omega) (r.withDistance n).word
  exact ⟨hmisuse, hintact, fun hi => ⟨r, n, _, d, hr, hoffset, hbytes hi, hdecode, hcut⟩⟩

theorem branchForward_landed (h : w.Sound) (hforward : Forward i) {steps : List Step}
    (hs : ∀ s ∈ steps, s.Spares w.offset (w.offset + 4)) :
    BranchLanded w.offset i (steps.foldl Step.run (branchForward w i).2)
      (land (steps.foldl Step.run (branchForward w i).2) (branchForward w i).1) := by
  have hfirst : Keeps 0 0 w (branchForward w i).2 := keeps_emit h i
  have hrun : Keeps w.offset (w.offset + 4) _ _ := keeps_steps hfirst.sound hs
  have hplace : (branchForward w i).1.toInt = (branchForward w i).2.offset - 4 :=
    hfirst.sound.toInt_offset_sub (k := 4) (by decide)
  by_cases hi : (steps.foldl Step.run (branchForward w i).2).Intact
  · obtain ⟨r, hr, hbytes, hoffset⟩ := emit_bytes h (hrun.intact hi)
    obtain ⟨n, hn⟩ := offset_steps hfirst.sound hs hi
    have hwritten : (branchForward w i).2.offset = w.offset + 4 := hoffset
    have hword : (branchForward w i).2.buffer.memory.slice w.offset 4 =
        littleEndian 4 r.word.toNat := by
      have hslice := Memory.slice_middle _ _ w.buffer.bytes (littleEndian 4 r.word.toNat) []
        (by rw [List.append_nil]; exact hbytes)
      rwa [Buffer.length_bytes, length_littleEndian] at hslice
    refine land_landed (n := n + 1) hrun.sound hr hforward (by omega) (by omega) (by omega) ?_
    rw [← hword]
    apply Memory.slice_congr
    intro k hk
    exact hrun.bytes _ (by omega) (by omega) (by omega)
  · have hv : ¬(land _ (branchForward w i).1).Intact := mt intact_of_land hi
    have hlt : (branchForward w i).2.offset < 0x8000000000000000 := hfirst.sound.bounded.offset_lt
    have hland : Keeps (branchForward w i).2.offset (branchForward w i).2.offset _
        (land _ (branchForward w i).1) := keeps_land hrun.sound (by omega) (by omega)
    exact ⟨hland.sound.usable.misuse, iff_of_false hv hi, fun h => absurd h hv⟩

end Forward

structure BranchedBack (target : Nat) (w v : Writer) : Prop where
  misuse : v.misuse = none
  intact_iff : v.Intact ↔ w.Intact ∧ w.buffer.Fits 4
  aimed : v.Intact → ∃ (n : Nat) (word : UInt32) (d : Int), w.offset = target + 4 * n ∧
    v.buffer.bytes = w.buffer.bytes ++ littleEndian 4 word.toNat ∧
    decode word = some (.b d) ∧ CutTo 26 (-n) d

theorem branchBack_branched {w : Writer} {target n : Nat} (h : w.Sound)
    (htarget : w.offset = target + 4 * n) :
    BranchedBack target w (branchBack w (Int64.ofNat target)) := by
  have hlt : w.offset < 0x8000000000000000 := h.bounded.offset_lt
  have hdistance : (Int64.ofNat target - Int64.ofNat w.offset).toInt = 4 * (-n : Int) := by
    rw [Int64.toInt_sub, Int64.toInt_ofNat_of_lt (by omega), Int64.toInt_ofNat_of_lt hlt,
      Int.bmod_eq_of_le (by omega) (by omega)]
    omega
  have hbranch : (Instr.b 0 : Resolved).IsBranch := trivial
  have hword := word_of_instructionDistance hbranch hdistance
  obtain ⟨d, hdecode, hcut⟩ := Instr.decode_withDistance hbranch (-n)
  have hkeeps : Keeps 0 0 w (branchBack w (Int64.ofNat target)) := keeps_emit h _
  rw [branchBack, emit_eq rfl] at hkeeps ⊢
  refine ⟨hkeeps.sound.usable.misuse, h.intact_append_iff _ _, fun hi => ?_⟩
  refine ⟨n, _, d, htarget, (h.bytes_append hi).1, ?_, hcut⟩
  rw [← hword] at hdecode
  exact hdecode

end OnePass.Arm64
