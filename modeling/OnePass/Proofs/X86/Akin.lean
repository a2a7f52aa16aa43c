import OnePass.Proofs.Buffer.Akin
import OnePass.Proofs.X86.Congruence

/-!
# Addresses in x86-64 code

An address takes eight bytes whatever it is. So operations that differ in addresses only are written
alike: both writers are filled equally far and fail in the same way.
-/

set_option autoImplicit false

namespace OnePass

inductive Operation.Alike : Operation → Operation → Prop where
  | same (o : Operation) : Alike o o
  | loadImmediate (reg : Text) (v v' : UInt64) :
      Alike (.loadImmediate reg v) (.loadImmediate reg v')
  | loadFloat (freg : Text) (a a' : UInt64) : Alike (.loadFloat freg a) (.loadFloat freg a')
  | call (a a' : UInt64) : Alike (.call a) (.call a')

namespace X86

variable {w w' : Writer}

theorem emit_movImm_akin (h : w.Akin w') (reg : Text) (v v' : UInt64) :
    (emit w (.movImm reg v)).Akin (emit w' (.movImm reg v')) := by
  have hf := Writer.Akin.congruence.failAll h ([Operand.general reg].filterMap Operand.rejection?)
  refine (hf.note _ _).appendAll ?_
  simp only [Instr.resolve?]
  cases Gp.ofName? reg with
  | none => exact .cons rfl .nil
  | some r => exact .cons rfl (.cons (by simp) .nil)

/-- Operations that differ in an immediate value at most leave writers akin. -/
theorem perform_alike (h : w.Akin w') {o o' : Operation} (ho : o.Alike o') :
    (perform w o).Akin (perform w' o') := by
  have hR := Writer.Akin.congruence
  cases ho with
  | same o => exact perform_congr hR h o
  | loadImmediate reg v v' => exact emit_movImm_akin h reg v v'
  | loadFloat freg a a' =>
    exact emit_congr hR (emit_movImm_akin h roles.scratch a a') (.loadSd freg roles.scratch)
  | call a a' => exact emit_congr hR (emit_movImm_akin h roles.scratch a a') (.call roles.scratch)

end X86

end OnePass
