import OnePass.Arm64.Target
import OnePass.Proofs.Buffer.Congruence

/-!
# Relations that ARM64 operations keep

Every operation is written in steps that writers in lockstep take together. A branch that lands is
read back from the buffer, so here the buffers must be the same and not only filled equally far.
-/

set_option autoImplicit false

namespace OnePass.Arm64

variable {R : Writer → Writer → Prop} (hR : Writer.Lockstep R) {w w' : Writer}

include hR

theorem emit_congr (h : R w w') (i : Named) : R (emit w i) (emit w' i) := by
  have hf := hR.congruence.failAll h (i.operands.filterMap Operand.rejection?)
  exact hR.append (hR.note hf _ _) _

theorem emitAll_congr (h : R w w') (is : List Named) : R (emitAll w is) (emitAll w' is) := by
  induction is generalizing w w' with
  | nil => exact h
  | cons i is ih => exact ih (emit_congr hR h i)

theorem branchForward_congr (h : R w w') (i : Named) :
    (branchForward w' i).1 = (branchForward w i).1 ∧
      R (branchForward w i).2 (branchForward w' i).2 := by
  have hw := emit_congr hR h i
  exact ⟨congrArg (Int64.ofNat · - 4) (hR.congruence.offset hw), hw⟩

theorem branchBack_congr (h : R w w') {target target' : Int64} (ht : target' = target) :
    R (branchBack w target) (branchBack w' target') := by
  rw [branchBack, branchBack, ht, hR.congruence.offset h]
  exact emit_congr hR h _

theorem land_congr (h : R w w') {place place' : Int64} (hp : place' = place) :
    R (land w place) (land w' place') := by
  unfold land
  rw [hp, hR.buffer h, hR.congruence.offset h]
  cases w.buffer.readWord place with
  | error m => exact hR.use h _
  | ok word =>
    dsimp only
    split
    · exact hR.use h _
    · exact hR.use h _

theorem power_congr (h : R w w') (dst src : Text) : R (power w dst src) (power w' dst src) := by
  unfold power
  split
  · exact hR.use h _
  have h1 := emitAll_congr hR h [.movz x17 1 0, .cmpZero src]
  obtain ⟨toNegative, h2⟩ := branchForward_congr hR h1 (.bCond less 0)
  obtain ⟨toDone, h3⟩ := branchForward_congr hR h2 (.cbz src 0)
  obtain ⟨toSkip, h4⟩ := branchForward_congr hR h3 (.tbzBit0 src 0)
  have h5 := land_congr hR (emit_congr hR h4 (.int .mul x17 x17 dst)) toSkip
  have h6 := emitAll_congr hR h5 [.int .mul dst dst dst, .asrOne src src]
  have h7 := branchBack_congr hR h6 (congrArg Int64.ofNat (hR.congruence.offset h2))
  have h8 := emit_congr hR (land_congr hR h7 toNegative) (.movz x17 0 0)
  exact emit_congr hR (land_congr hR h8 toDone) (.mov dst x17)

theorem intBinary_congr (h : R w w') (op : Operator) (dst src : Text) :
    R (intBinary w op dst src) (intBinary w' op dst src) := by
  unfold intBinary
  cases op with
  | add | sub | mul | div => exact emit_congr hR h _
  | mod => exact emitAll_congr hR h _
  | pow => exact power_congr hR h dst src
  | unknown => exact hR.use h _

theorem floatBinary_congr (h : R w w') (op : Operator) (dst src : Text) :
    R (floatBinary w op dst src) (floatBinary w' op dst src) := by
  unfold floatBinary
  cases op with
  | add | sub | mul | div => exact emit_congr hR h _
  | mod | pow | unknown => exact hR.use h _

theorem perform_congr (h : R w w') (o : Operation) : R (perform w o) (perform w' o) := by
  unfold perform
  cases o with
  | prologue | epilogue | loadImmediate | loadFloat | call => exact emitAll_congr hR h _
  | move dst src | moveFloat dst src => exact Writer.rel_ite _ h (emit_congr hR h _)
  | intBinary op dst src => exact intBinary_congr hR h op dst src
  | floatBinary op dst src => exact floatBinary_congr hR h op dst src
  | _ => exact emit_congr hR h _

end OnePass.Arm64
