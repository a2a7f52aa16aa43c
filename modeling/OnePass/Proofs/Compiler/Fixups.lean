import OnePass.Proofs.Arm64.Fixups
import OnePass.Proofs.X86.Fixups

/-!
# Where branches lead on both targets

A branch is written before its target is known and pointed there later, with any code in between.
On x86-64 it then leads to its target, or a failure is recorded. On ARM64 this holds for targets in
reach of the branch; beyond, the distance is cut to the field and no failure is recorded.
-/

set_option autoImplicit false

namespace OnePass

/-- Branches that are pointed to the end of the code, and branches back to what is written. -/
theorem fixups_lead_to_targets_in_reach {w : Writer} (hm : w.misuse = none)
    (hw : w.buffer.Ready) :
    (∀ (opcode : UInt8) (label : Text) (steps : List X86.Step),
      (∀ s ∈ steps, s.Spares w.offset (w.offset + 2)) →
      X86.JumpLanded w.offset opcode
        (steps.foldl X86.Step.run (X86.jumpForward w opcode label).2)
        (X86.land (steps.foldl X86.Step.run (X86.jumpForward w opcode label).2)
          (X86.jumpForward w opcode label).1)) ∧
    (∀ (opcode : UInt8) (label : Text) (target : Nat), target ≤ w.offset →
      X86.JumpedBack opcode target w (X86.jumpBack w opcode label (Int64.ofNat target))) ∧
    (∀ (i : Arm64.Named) (steps : List Arm64.Step), Arm64.Forward i →
      (∀ s ∈ steps, s.Spares w.offset (w.offset + 4)) →
      Arm64.BranchLanded w.offset i
        (steps.foldl Arm64.Step.run (Arm64.branchForward w i).2)
        (Arm64.land (steps.foldl Arm64.Step.run (Arm64.branchForward w i).2)
          (Arm64.branchForward w i).1)) ∧
    ∀ target n : Nat, w.offset = target + 4 * n →
      Arm64.BranchedBack target w (Arm64.branchBack w (Int64.ofNat target)) := by
  have hsound : w.Sound := ⟨⟨hm, hw.committed⟩, hw.bounded⟩
  refine ⟨?_, ?_, ?_, ?_⟩
  · intro opcode label steps hs
    exact X86.jumpForward_landed hsound hs
  · intro opcode label target htarget
    exact X86.jumpBack_jumped hsound htarget opcode label
  · intro i steps hi hs
    exact Arm64.branchForward_landed hsound hi hs
  · intro target n htarget
    exact Arm64.branchBack_branched hsound htarget

def Writer.empty (size : Nat) : Writer := { buffer := .create (utf8 "code") size 0 }

/-- A jump and a branch over one instruction, in a buffer of eight bytes. -/
theorem fixups_over_one_instruction :
    (Writer.empty 8).misuse = none ∧ (Writer.empty 8).buffer.Ready ∧
      X86.JumpLanded 0 X86.jz
        (X86.emit (X86.jumpForward (Writer.empty 8) X86.jz (utf8 "jz")).2 .ret)
        (X86.land (X86.emit (X86.jumpForward (Writer.empty 8) X86.jz (utf8 "jz")).2 .ret) 1) ∧
      Arm64.BranchLanded 0 (.cbz (utf8 "x3") 0)
        (Arm64.emit (Arm64.branchForward (Writer.empty 8) (.cbz (utf8 "x3") 0)).2 .ret)
        (Arm64.land (Arm64.emit (Arm64.branchForward (Writer.empty 8) (.cbz (utf8 "x3") 0)).2 .ret)
          0) := by
  have hready : (Writer.empty 8).buffer.Ready := Buffer.ready_create _ _ (by decide)
  obtain ⟨hjump, -, hbranch, -⟩ := fixups_lead_to_targets_in_reach (w := Writer.empty 8) rfl hready
  refine ⟨rfl, hready, ?_, ?_⟩
  · exact hjump X86.jz (utf8 "jz") [.emit .ret] (by simp [X86.Step.Spares])
  · exact hbranch (.cbz (utf8 "x3") 0) [.emit .ret] (.cbz _) (by simp [Arm64.Step.Spares])

namespace Arm64

def bitBranch : Named := .tbzBit0 (utf8 "x0") 0

theorem resolve_bitBranch : bitBranch.resolve? = some (.tbzBit0 ⟨0⟩ 0) := by decide

def branchOver (size k : Nat) : Writer :=
  (List.replicate k (Step.emit .ret)).foldl Step.run (branchForward (Writer.empty size) bitBranch).2

theorem branchOver_written {size : Nat} (hsize : size < 0x8000000000000000) (k : Nat) :
    Written (Writer.empty size).buffer (encodeAll (.tbzBit0 ⟨0⟩ 0 :: List.replicate k .ret))
      (branchOver size k) := by
  have hrun : branchOver size k =
      emitAll (Writer.empty size) (bitBranch :: List.replicate k .ret) := by
    rw [branchOver, ← List.map_replicate, List.foldl_map]
    rfl
  have hresolve : (bitBranch :: List.replicate k .ret).map Instr.resolve? =
      (.tbzBit0 ⟨0⟩ 0 :: List.replicate k .ret).map some := by
    rw [List.map_cons, List.map_cons, resolve_bitBranch, List.map_replicate, List.map_replicate]
    rfl
  have hready : (Writer.empty size).buffer.Ready := Buffer.ready_create _ _ hsize
  have hcode := emitAll_code (.begin (.begin _ hready #[] true)) _ _ hresolve
  rw [hrun]
  exact hcode.written

theorem branchOver_intact {size k : Nat} (hsize : size < 0x8000000000000000)
    (hroom : 4 * (k + 1) ≤ size) :
    (branchOver size k).Intact ∧ (branchOver size k).offset = 4 * (k + 1) := by
  have hwritten := branchOver_written hsize k
  have hlength : (encodeAll (.tbzBit0 ⟨0⟩ 0 :: List.replicate k .ret)).length = 4 * (k + 1) := by
    rw [length_encodeAll, List.length_cons, List.length_replicate]
  have hfits : (Writer.empty size).buffer.Fits
      (encodeAll (.tbzBit0 ⟨0⟩ 0 :: List.replicate k .ret)).length := by
    rw [hlength]
    exact Buffer.fits_create_iff.2 hroom
  refine ⟨hwritten.failure_eq_none_iff.2 hfits, ?_⟩
  rw [hwritten.offset hfits, hlength]
  exact Nat.zero_add _

/-- The branch lands without a failure, whatever its field holds of the distance. -/
theorem branchOver_landed (size k : Nat) (hsize : size < 0x8000000000000000)
    (hroom : 4 * (k + 1) ≤ size) :
    (land (branchOver size k) (branchForward (Writer.empty size) bitBranch).1).Intact ∧
      (branchOver size k).offset = 4 * (k + 1) ∧ ∃ (word : UInt32) (d : Int),
        (land (branchOver size k) (branchForward (Writer.empty size) bitBranch).1).buffer.bytes =
            littleEndian 4 word.toNat ++ (branchOver size k).buffer.bytes.drop 4 ∧
          decode word = some (.tbzBit0 ⟨0⟩ d) ∧ CutTo 14 (k + 1) d := by
  obtain ⟨hintact, hoffset⟩ := branchOver_intact hsize hroom
  have hsound : (Writer.empty size).Sound := ⟨⟨rfl, rfl⟩, Nat.zero_le _, hsize⟩
  have hspares : ∀ s ∈ List.replicate k (Step.emit .ret), s.Spares 0 4 := by
    intro s hs
    rw [(List.mem_replicate.1 hs).2]
    trivial
  have hlanded := branchForward_landed hsound (.tbzBit0 (utf8 "x0")) hspares
  have hland := hlanded.intact_iff.2 hintact
  obtain ⟨r, n, word, d, hr, hn, hbytes, hdecode, hcut⟩ := hlanded.aimed hland
  obtain rfl : r = .tbzBit0 ⟨0⟩ 0 := Option.some.inj (hr.symm.trans resolve_bitBranch)
  have hdistance : n = k + 1 := by
    have hend : (branchOver size k).offset = 0 + 4 * n := hn
    omega
  rw [hdistance] at hcut
  exact ⟨hland, hoffset, word, d, hbytes, hdecode, hcut⟩

end Arm64

/-- A branch over 8191 instructions is pointed backwards, and no failure is recorded. -/
theorem far_branch_is_cut :
    (Arm64.land (Arm64.branchOver 40000 8191) 0).Intact ∧
      (Arm64.branchOver 40000 8191).offset = 32768 ∧ ∃ word : UInt32,
        (Arm64.land (Arm64.branchOver 40000 8191) 0).buffer.bytes =
            littleEndian 4 word.toNat ++ (Arm64.branchOver 40000 8191).buffer.bytes.drop 4 ∧
          Arm64.decode word = some (.tbzBit0 ⟨0⟩ (-8192)) := by
  have hplace : (Arm64.branchForward (Writer.empty 40000) Arm64.bitBranch).1 = 0 := by
    decide +kernel
  obtain ⟨hland, hoffset, word, d, hbytes, hdecode, hcut⟩ :=
    Arm64.branchOver_landed 40000 8191 (by decide) (by decide)
  rw [hplace] at hland hbytes
  have hd : d = -8192 := by
    have hlow : -8192 ≤ d ∧ d < 8192 := hcut.reachable
    have hmod : d % 16384 = 8192 % 16384 := hcut.congruent
    omega
  exact ⟨hland, hoffset, word, hbytes, hd ▸ hdecode⟩

end OnePass
