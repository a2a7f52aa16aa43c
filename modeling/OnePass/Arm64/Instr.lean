import OnePass.Arm64.Register
import OnePass.Buffer.Failure

/-!
# ARM64 instructions

The instructions that generated code consists of, over operands of any kind: an assembler works
with register names, an encoder with registers. Distances of branches count instructions.
-/

set_option autoImplicit false

namespace OnePass.Arm64

inductive IntOp where
  | add
  | sub
  | mul
  | sdiv
  deriving DecidableEq, Repr

inductive FloatOp where
  | fadd
  | fsub
  | fmul
  | fdiv
  deriving DecidableEq, Repr

inductive Instr (G F : Type) where
  | stpFrame
  | ldpFrame
  | movFpSp
  | movSpFp
  | ret
  | strPre (t : G)
  | ldrPost (t : G)
  | strPreD (t : F)
  | ldrPostD (t : F)
  | ldrD (t : F) (base : G)
  | movz (d : G) (imm : UInt16) (half : UInt32)
  | movk (d : G) (imm : UInt16) (half : UInt32)
  | mov (d m : G)
  | fmov (d n : F)
  | blr (n : G)
  | int (op : IntOp) (d n m : G)
  | msub (d n m a : G)
  | neg (d m : G)
  | asrOne (d n : G)
  | cmpZero (n : G)
  | csel (d n m : G) (cond : UInt32)
  | scvtf (d : F) (n : G)
  | fcvtzs (d : G) (n : F)
  | float (op : FloatOp) (d n m : F)
  | fneg (d n : F)
  | b (distance : Int)
  | bCond (cond : UInt32) (distance : Int)
  | cbz (t : G) (distance : Int)
  | tbzBit0 (t : G) (distance : Int)
  deriving DecidableEq, Repr

abbrev Named := Instr Text Text

abbrev Resolved := Instr Gp Fp

inductive Operand where
  | general (name : Text)
  | float (name : Text)
  deriving DecidableEq, Repr

def Operand.rejection? : Operand → Option Rejection
  | .general n => if (Gp.ofName? n).isSome then none else some (.register .arm64General n)
  | .float n => if (Fp.ofName? n).isSome then none else some (.register .arm64Float n)

def IntOp.mnemonic : IntOp → Text
  | .add => utf8 "add"
  | .sub => utf8 "sub"
  | .mul => utf8 "mul"
  | .sdiv => utf8 "sdiv"

def FloatOp.mnemonic : FloatOp → Text
  | .fadd => utf8 "fadd"
  | .fsub => utf8 "fsub"
  | .fmul => utf8 "fmul"
  | .fdiv => utf8 "fdiv"

def assembly (mnemonic : Text) (operands : List Text) : Text :=
  mnemonic ++ utf8 " " ++ Text.join (utf8 ", ") operands

namespace Instr

def operands : Named → List Operand
  | .strPre t => [.general t]
  | .ldrPost t => [.general t]
  | .strPreD t => [.float t]
  | .ldrPostD t => [.float t]
  | .ldrD t base => [.float t, .general base]
  | .movz d _ _ => [.general d]
  | .movk d _ _ => [.general d]
  | .mov d m => [.general d, .general m]
  | .fmov d n => [.float d, .float n]
  | .blr n => [.general n]
  | .int _ d n m => [.general d, .general n, .general m]
  | .msub d n m a => [.general d, .general n, .general m, .general a]
  | .neg d m => [.general d, .general m]
  | .asrOne d n => [.general d, .general n]
  | .cmpZero n => [.general n]
  | .csel d n m _ => [.general d, .general n, .general m]
  | .scvtf d n => [.float d, .general n]
  | .fcvtzs d n => [.general d, .float n]
  | .float _ d n m => [.float d, .float n, .float m]
  | .fneg d n => [.float d, .float n]
  | .cbz t _ => [.general t]
  | .tbzBit0 t _ => [.general t]
  | _ => []

def resolve? : Named → Option Resolved
  | .stpFrame => some .stpFrame
  | .ldpFrame => some .ldpFrame
  | .movFpSp => some .movFpSp
  | .movSpFp => some .movSpFp
  | .ret => some .ret
  | .strPre t => return .strPre (← Gp.ofName? t)
  | .ldrPost t => return .ldrPost (← Gp.ofName? t)
  | .strPreD t => return .strPreD (← Fp.ofName? t)
  | .ldrPostD t => return .ldrPostD (← Fp.ofName? t)
  | .ldrD t base => return .ldrD (← Fp.ofName? t) (← Gp.ofName? base)
  | .movz d imm half => return .movz (← Gp.ofName? d) imm half
  | .movk d imm half => return .movk (← Gp.ofName? d) imm half
  | .mov d m => return .mov (← Gp.ofName? d) (← Gp.ofName? m)
  | .fmov d n => return .fmov (← Fp.ofName? d) (← Fp.ofName? n)
  | .blr n => return .blr (← Gp.ofName? n)
  | .int op d n m => return .int op (← Gp.ofName? d) (← Gp.ofName? n) (← Gp.ofName? m)
  | .msub d n m a =>
    return .msub (← Gp.ofName? d) (← Gp.ofName? n) (← Gp.ofName? m) (← Gp.ofName? a)
  | .neg d m => return .neg (← Gp.ofName? d) (← Gp.ofName? m)
  | .asrOne d n => return .asrOne (← Gp.ofName? d) (← Gp.ofName? n)
  | .cmpZero n => return .cmpZero (← Gp.ofName? n)
  | .csel d n m cond =>
    return .csel (← Gp.ofName? d) (← Gp.ofName? n) (← Gp.ofName? m) cond
  | .scvtf d n => return .scvtf (← Fp.ofName? d) (← Gp.ofName? n)
  | .fcvtzs d n => return .fcvtzs (← Gp.ofName? d) (← Fp.ofName? n)
  | .float op d n m => return .float op (← Fp.ofName? d) (← Fp.ofName? n) (← Fp.ofName? m)
  | .fneg d n => return .fneg (← Fp.ofName? d) (← Fp.ofName? n)
  | .b distance => some (.b distance)
  | .bCond cond distance => some (.bCond cond distance)
  | .cbz t distance => return .cbz (← Gp.ofName? t) distance
  | .tbzBit0 t distance => return .tbzBit0 (← Gp.ofName? t) distance

def wideMove (mnemonic : Text) (d : Text) (imm : UInt16) (half : UInt32) : Text :=
  assembly mnemonic
    [d, utf8 "#0x" ++ Text.hex imm.toNat, utf8 "lsl #" ++ Text.decimal (half * 16).toNat]

def text : Named → Text
  | .stpFrame => utf8 "stp x29, x30, [sp, #-16]!"
  | .ldpFrame => utf8 "ldp x29, x30, [sp], #16"
  | .movFpSp => utf8 "mov x29, sp"
  | .movSpFp => utf8 "mov sp, x29"
  | .ret => utf8 "ret"
  | .strPre t => assembly (utf8 "str") [t, utf8 "[sp, #-16]!"]
  | .ldrPost t => assembly (utf8 "ldr") [t, utf8 "[sp], #16"]
  | .strPreD t => assembly (utf8 "str") [t, utf8 "[sp, #-16]!"]
  | .ldrPostD t => assembly (utf8 "ldr") [t, utf8 "[sp], #16"]
  | .ldrD t base => assembly (utf8 "ldr") [t, utf8 "[" ++ base ++ utf8 "]"]
  | .movz d imm half => wideMove (utf8 "movz") d imm half
  | .movk d imm half => wideMove (utf8 "movk") d imm half
  | .mov d m => assembly (utf8 "mov") [d, m]
  | .fmov d n => assembly (utf8 "fmov") [d, n]
  | .blr n => assembly (utf8 "blr") [n]
  | .int op d n m => assembly op.mnemonic [d, n, m]
  | .msub d n m a => assembly (utf8 "msub") [d, n, m, a]
  | .neg d m => assembly (utf8 "neg") [d, m]
  | .asrOne d n => assembly (utf8 "asr") [d, n, utf8 "#1"]
  | .cmpZero n => assembly (utf8 "cmp") [n, utf8 "#0"]
  | .csel d n m cond => assembly (utf8 "csel") [d, n, m, Text.decimal cond.toNat]
  | .scvtf d n => assembly (utf8 "scvtf") [d, n]
  | .fcvtzs d n => assembly (utf8 "fcvtzs") [d, n]
  | .float op d n m => assembly op.mnemonic [d, n, m]
  | .fneg d n => assembly (utf8 "fneg") [d, n]
  | .b distance => assembly (utf8 "b") [Text.explicitlySigned distance]
  | .bCond cond _ => utf8 "b." ++ Text.decimal cond.toNat ++ utf8 " <fixup>"
  | .cbz t _ => assembly (utf8 "cbz") [t, utf8 "<fixup>"]
  | .tbzBit0 t _ => assembly (utf8 "tbz") [t, utf8 "#0", utf8 "<fixup>"]

end Instr

end OnePass.Arm64
