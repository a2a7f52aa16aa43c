import OnePass.Proofs.Buffer.Congruence
import OnePass.X86.Target

/-!
# Relations that x86-64 operations keep

Every operation is written in the steps that a congruence of writers keeps. Jumps are aimed at where
the writer is, which is the same place for both writers.
-/

set_option autoImplicit false

namespace OnePass.X86

variable {R : Writer → Writer → Prop} (hR : Writer.Congruence R) {w w' : Writer}

include hR

theorem emit_congr (h : R w w') (i : Named) : R (emit w i) (emit w' i) := by
  have hf := hR.failAll h (i.operands.filterMap Operand.rejection?)
  unfold emit
  dsimp only
  cases longBase? i with
  | some base => exact hR.fail hf _
  | none => exact hR.appendAll (hR.note hf _ _) _

theorem emitAll_congr (h : R w w') (is : List Named) : R (emitAll w is) (emitAll w' is) := by
  induction is generalizing w w' with
  | nil => exact h
  | cons i is ih => exact ih (emit_congr hR h i)

theorem jumpForward_congr (h : R w w') (opcode : UInt8) (label : Text) :
    (jumpForward w' opcode label).1 = (jumpForward w opcode label).1 ∧
      R (jumpForward w opcode label).2 (jumpForward w' opcode label).2 := by
  have hw : R ((noteLine w (.forward label)).append [opcode, 0])
      ((noteLine w' (.forward label)).append [opcode, 0]) := hR.append (hR.note h _ _) _
  exact ⟨congrArg (Int64.ofNat · - 1) (hR.offset hw), hw⟩

theorem land_congr (h : R w w') {place place' : Int64} (hp : place' = place) :
    R (land w place) (land w' place') := by
  subst hp
  unfold land
  dsimp only
  rw [hR.offset h]
  split
  · exact hR.patchByte h _ _
  · exact hR.fail h _

theorem jumpBack_congr (h : R w w') (opcode : UInt8) (label : Text) {target target' : Int64}
    (ht : target' = target) :
    R (jumpBack w opcode label target) (jumpBack w' opcode label target') := by
  subst ht
  unfold jumpBack
  dsimp only
  rw [hR.offset h]
  split
  · exact hR.append (hR.note h _ _) _
  · exact hR.fail h _

theorem floatToInt_congr (h : R w w') (reg freg : Text) :
    R (floatToInt w reg freg) (floatToInt w' reg freg) := by
  unfold floatToInt
  have h1 := emitAll_congr hR h [.cvttsd2si reg freg, .cmpImm reg 1]
  obtain ⟨toDone, h2⟩ := jumpForward_congr hR h1 jno (utf8 "jno done")
  have h3 := emit_congr hR h2 (.ucomisd freg freg)
  obtain ⟨toNaN, h4⟩ := jumpForward_congr hR h3 jp (utf8 "jp nan")
  have h5 := emitAll_congr hR h4 [.xorpd xmm15 xmm15, .ucomisd freg xmm15]
  obtain ⟨toDone', h6⟩ := jumpForward_congr hR h5 jbe (utf8 "jbe done")
  have h7 := emit_congr hR h6 (.not reg)
  obtain ⟨toDone'', h8⟩ := jumpForward_congr hR h7 jmp (utf8 "jmp done")
  have h9 := emit_congr hR (land_congr hR h8 toNaN) (.xor32 reg)
  exact land_congr hR (land_congr hR (land_congr hR h9 toDone) toDone') toDone''

theorem divide_congr (h : R w w') (op : Operator) (dst src : Text) :
    R (divide w op dst src) (divide w' op dst src) := by
  unfold divide
  split
  · exact hR.fail h _
  have h1 := emit_congr hR h (.test src src)
  obtain ⟨toZero, h2⟩ := jumpForward_congr hR h1 jz (utf8 "jz zero")
  have h3 := emit_congr hR h2 (.cmpImm src (-1))
  obtain ⟨toMinusOne, h4⟩ := jumpForward_congr hR h3 jz (utf8 "jz negone")
  have h5 := emitAll_congr hR h4 [.cqo, .idiv src]
  have h6 := Writer.rel_ite (op = .mod) (emit_congr hR h5 (.mov rax rdx)) h5
  obtain ⟨toDone, h7⟩ := jumpForward_congr hR h6 jmp (utf8 "jmp done")
  have h8 := land_congr hR h7 toMinusOne
  have h9 := Writer.rel_ite (op = .div) (emit_congr hR h8 (.neg rax))
    (emit_congr hR h8 (.xor32 rax))
  obtain ⟨toDone', h10⟩ := jumpForward_congr hR h9 jmp (utf8 "jmp done")
  have h11 := emit_congr hR (land_congr hR h10 toZero) (.xor32 rax)
  exact land_congr hR (land_congr hR h11 toDone) toDone'

theorem power_congr (h : R w w') (dst src : Text) : R (power w dst src) (power w' dst src) := by
  unfold power
  split
  · exact hR.fail h _
  have h1 := emitAll_congr hR h [.movEdx 1, .test src src]
  obtain ⟨toNegative, h2⟩ := jumpForward_congr hR h1 js (utf8 "js neg")
  have h3 := emit_congr hR h2 (.test src src)
  obtain ⟨toDone, h4⟩ := jumpForward_congr hR h3 jz (utf8 "jz done")
  have h5 := emit_congr hR h4 (.testImm src 1)
  obtain ⟨toSkip, h6⟩ := jumpForward_congr hR h5 jz (utf8 "jz skip")
  have h7 := land_congr hR (emit_congr hR h6 (.imul rdx dst)) toSkip
  have h8 := emitAll_congr hR h7 [.imul dst dst, .sarOne src]
  have h9 := jumpBack_congr hR h8 jmp (utf8 "jmp loop") (congrArg Int64.ofNat (hR.offset h2))
  have h10 := emit_congr hR (land_congr hR h9 toNegative) (.xor32 rdx)
  exact emit_congr hR (land_congr hR h10 toDone) (.mov dst rdx)

theorem intBinary_congr (h : R w w') (op : Operator) (dst src : Text) :
    R (intBinary w op dst src) (intBinary w' op dst src) := by
  unfold intBinary
  cases op with
  | add | sub | mul => exact emit_congr hR h _
  | div | mod => exact divide_congr hR h _ dst src
  | pow => exact power_congr hR h dst src
  | unknown => exact hR.fail h _

theorem floatBinary_congr (h : R w w') (op : Operator) (dst src : Text) :
    R (floatBinary w op dst src) (floatBinary w' op dst src) := by
  unfold floatBinary
  cases op with
  | add | sub | mul | div => exact emit_congr hR h _
  | mod | pow | unknown => exact hR.fail h _

theorem perform_congr (h : R w w') (o : Operation) : R (perform w o) (perform w' o) := by
  unfold perform
  cases o with
  | loadImmediate reg v | intToFloat freg reg | intNegate reg => exact emit_congr hR h _
  | move dst src | moveFloat dst src => exact Writer.rel_ite _ h (emit_congr hR h _)
  | floatToInt reg freg => exact floatToInt_congr hR h reg freg
  | intBinary op dst src => exact intBinary_congr hR h op dst src
  | floatBinary op dst src => exact floatBinary_congr hR h op dst src
  | _ => exact emitAll_congr hR h _

end OnePass.X86
