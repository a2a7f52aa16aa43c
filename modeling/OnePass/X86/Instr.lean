import OnePass.Buffer.Failure
import OnePass.X86.Register

/-!
# x86-64 instructions

The instructions that generated code consists of. Operands are of any kind: an assembler works with
register names, which may name nothing, an encoder and a machine with registers. A listing line
shows an instruction with the operands as given; a jump shows a label.
-/

set_option autoImplicit false

namespace OnePass.X86

inductive SseOp where
  | addsd
  | mulsd
  | subsd
  | divsd
  | movsd
  deriving DecidableEq, Repr

inductive Instr (G X : Type) where
  | pushRbp
  | popRbp
  | movRbpRsp
  | movRspRbp
  | ret
  | subRsp (n : UInt8)
  | addRsp (n : UInt8)
  | storeRsp (src : G)
  | loadRsp (dst : G)
  | storeRspSd (src : X)
  | loadRspSd (dst : X)
  | loadSd (dst : X) (base : G)
  | movImm (dst : G) (imm : UInt64)
  | movEdx (imm : UInt32)
  | mov (dst src : G)
  | xor32 (reg : G)
  | call (reg : G)
  | add (dst src : G)
  | sub (dst src : G)
  | imul (dst src : G)
  | cqo
  | idiv (src : G)
  | neg (reg : G)
  | sarOne (reg : G)
  | test (a b : G)
  | testImm (reg : G) (imm : UInt32)
  | not (reg : G)
  | cmpImm (reg : G) (imm : Int8)
  | jump (opcode : UInt8) (distance : Int8)
  | sse (op : SseOp) (dst src : X)
  | xorpd (dst src : X)
  | ucomisd (a b : X)
  | movq (dst : X) (src : G)
  | cvtsi2sd (dst : X) (src : G)
  | cvttsd2si (dst : G) (src : X)
  deriving DecidableEq, Repr

abbrev Named := Instr Text Text

abbrev Resolved := Instr Gp Xmm

inductive Operand where
  | general (name : Text)
  | float (name : Text)
  deriving DecidableEq, Repr

def Operand.rejection? : Operand → Option Rejection
  | .general n => if (Gp.ofName? n).isSome then none else some (.register .x86General n)
  | .float n => if (Xmm.ofName? n).isSome then none else some (.register .x86Float n)

namespace Instr

def operands : Named → List Operand
  | .storeRsp r => [.general r]
  | .loadRsp r => [.general r]
  | .storeRspSd x => [.float x]
  | .loadRspSd x => [.float x]
  | .loadSd x r => [.float x, .general r]
  | .movImm r _ => [.general r]
  | .mov d s => [.general d, .general s]
  | .xor32 r => [.general r]
  | .call r => [.general r]
  | .add d s => [.general d, .general s]
  | .sub d s => [.general d, .general s]
  | .imul d s => [.general d, .general s]
  | .idiv r => [.general r]
  | .neg r => [.general r]
  | .sarOne r => [.general r]
  | .test a b => [.general a, .general b]
  | .testImm r _ => [.general r]
  | .not r => [.general r]
  | .cmpImm r _ => [.general r]
  | .sse _ d s => [.float d, .float s]
  | .xorpd d s => [.float d, .float s]
  | .ucomisd a b => [.float a, .float b]
  | .movq x r => [.float x, .general r]
  | .cvtsi2sd x r => [.float x, .general r]
  | .cvttsd2si r x => [.general r, .float x]
  | _ => []

def resolve? : Named → Option Resolved
  | .pushRbp => some .pushRbp
  | .popRbp => some .popRbp
  | .movRbpRsp => some .movRbpRsp
  | .movRspRbp => some .movRspRbp
  | .ret => some .ret
  | .subRsp n => some (.subRsp n)
  | .addRsp n => some (.addRsp n)
  | .storeRsp r => return .storeRsp (← Gp.ofName? r)
  | .loadRsp r => return .loadRsp (← Gp.ofName? r)
  | .storeRspSd x => return .storeRspSd (← Xmm.ofName? x)
  | .loadRspSd x => return .loadRspSd (← Xmm.ofName? x)
  | .loadSd x r => return .loadSd (← Xmm.ofName? x) (← Gp.ofName? r)
  | .movImm r imm => return .movImm (← Gp.ofName? r) imm
  | .movEdx imm => some (.movEdx imm)
  | .mov d s => return .mov (← Gp.ofName? d) (← Gp.ofName? s)
  | .xor32 r => return .xor32 (← Gp.ofName? r)
  | .call r => return .call (← Gp.ofName? r)
  | .add d s => return .add (← Gp.ofName? d) (← Gp.ofName? s)
  | .sub d s => return .sub (← Gp.ofName? d) (← Gp.ofName? s)
  | .imul d s => return .imul (← Gp.ofName? d) (← Gp.ofName? s)
  | .cqo => some .cqo
  | .idiv r => return .idiv (← Gp.ofName? r)
  | .neg r => return .neg (← Gp.ofName? r)
  | .sarOne r => return .sarOne (← Gp.ofName? r)
  | .test a b => return .test (← Gp.ofName? a) (← Gp.ofName? b)
  | .testImm r imm => return .testImm (← Gp.ofName? r) imm
  | .not r => return .not (← Gp.ofName? r)
  | .cmpImm r imm => return .cmpImm (← Gp.ofName? r) imm
  | .jump opcode distance => some (.jump opcode distance)
  | .sse op d s => return .sse op (← Xmm.ofName? d) (← Xmm.ofName? s)
  | .xorpd d s => return .xorpd (← Xmm.ofName? d) (← Xmm.ofName? s)
  | .ucomisd a b => return .ucomisd (← Xmm.ofName? a) (← Xmm.ofName? b)
  | .movq x r => return .movq (← Xmm.ofName? x) (← Gp.ofName? r)
  | .cvtsi2sd x r => return .cvtsi2sd (← Xmm.ofName? x) (← Gp.ofName? r)
  | .cvttsd2si r x => return .cvttsd2si (← Gp.ofName? r) (← Xmm.ofName? x)

end Instr

def SseOp.mnemonic : SseOp → Text
  | .addsd => utf8 "addsd"
  | .mulsd => utf8 "mulsd"
  | .subsd => utf8 "subsd"
  | .divsd => utf8 "divsd"
  | .movsd => utf8 "movsd"

def assembly (mnemonic : Text) (operands : List Text) : Text :=
  mnemonic ++ utf8 " " ++ Text.join (utf8 ", ") operands

def Instr.text : Named → Text
  | .pushRbp => utf8 "push rbp"
  | .popRbp => utf8 "pop rbp"
  | .movRbpRsp => utf8 "mov rbp, rsp"
  | .movRspRbp => utf8 "mov rsp, rbp"
  | .ret => utf8 "ret"
  | .subRsp n => utf8 "sub rsp, " ++ Text.decimal n.toNat
  | .addRsp n => utf8 "add rsp, " ++ Text.decimal n.toNat
  | .storeRsp r => assembly (utf8 "mov") [utf8 "[rsp]", r]
  | .loadRsp r => assembly (utf8 "mov") [r, utf8 "[rsp]"]
  | .storeRspSd x => assembly (utf8 "movsd") [utf8 "[rsp]", x]
  | .loadRspSd x => assembly (utf8 "movsd") [x, utf8 "[rsp]"]
  | .loadSd x r => assembly (utf8 "movsd") [x, utf8 "[" ++ r ++ utf8 "]"]
  | .movImm r imm => assembly (utf8 "mov") [r, utf8 "0x" ++ Text.hex imm.toNat]
  | .movEdx imm => utf8 "mov edx, " ++ Text.decimal imm.toNat
  | .mov d s => assembly (utf8 "mov") [d, s]
  | .xor32 r => assembly (utf8 "xor") [r, r] ++ utf8 " (32-bit)"
  | .call r => assembly (utf8 "call") [r]
  | .add d s => assembly (utf8 "add") [d, s]
  | .sub d s => assembly (utf8 "sub") [d, s]
  | .imul d s => assembly (utf8 "imul") [d, s]
  | .cqo => utf8 "cqo"
  | .idiv r => assembly (utf8 "idiv") [r]
  | .neg r => assembly (utf8 "neg") [r]
  | .sarOne r => assembly (utf8 "sar") [r, utf8 "1"]
  | .test a b => assembly (utf8 "test") [a, b]
  | .testImm r imm => assembly (utf8 "test") [r, Text.decimal imm.toNat]
  | .not r => assembly (utf8 "not") [r]
  | .cmpImm r imm => assembly (utf8 "cmp") [r, Text.signed imm.toInt]
  | .jump opcode distance =>
    assembly (utf8 "jump") [Text.hexByte opcode, Text.explicitlySigned distance.toInt]
  | .sse op d s => assembly op.mnemonic [d, s]
  | .xorpd d s => assembly (utf8 "xorpd") [d, s]
  | .ucomisd a b => assembly (utf8 "ucomisd") [a, b]
  | .movq x r => assembly (utf8 "movq") [x, r]
  | .cvtsi2sd x r => assembly (utf8 "cvtsi2sd") [x, r]
  | .cvttsd2si r x => assembly (utf8 "cvttsd2si") [r, x]

inductive Line where
  | plain (i : Named)
  | forward (label : Text)
  | backward (label : Text) (distance : Int)
  deriving DecidableEq, Repr

def Line.text : Line → Text
  | .plain i => i.text
  | .forward label => label ++ utf8 " <fixup>"
  | .backward label distance => label ++ utf8 " " ++ Text.explicitlySigned distance

end OnePass.X86
