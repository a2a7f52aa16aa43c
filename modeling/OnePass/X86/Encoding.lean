import OnePass.Buffer.Memory
import OnePass.X86.Instr

/-!
# x86-64 encoding

The bytes of each instruction, in the pieces they are emitted in: a mandatory lead byte, a REX byte
when it says anything, the opcode, the operand byte, the immediate. A piece is emitted whole or not
at all, so an overflow can leave a cut instruction behind.
-/

set_option autoImplicit false

namespace OnePass.X86

/-- The REX byte: `w` selects 64-bit operands, high register numbers extend the operand byte. -/
def rex (w : Bool) (reg rm : UInt8) : UInt8 :=
  0x40 ||| (if w then 0x08 else 0) ||| (if 8 ≤ reg then 0x04 else 0) |||
    (if 8 ≤ rm then 0x01 else 0)

def modrm (mode reg rm : UInt8) : UInt8 := mode <<< 6 ||| (reg &&& 7) <<< 3 ||| (rm &&& 7)

def rexPiece (w : Bool) (reg rm : UInt8) : List Bytes :=
  if rex w reg rm = 0x40 then [] else [[rex w reg rm]]

def regReg (lead : List Bytes) (w : Bool) (opcode : Bytes) (reg rm : UInt8) : List Bytes :=
  lead ++ rexPiece w reg rm ++ [opcode, [modrm 3 reg rm]]

def SseOp.opcode : SseOp → UInt8
  | .addsd => 0x58
  | .mulsd => 0x59
  | .subsd => 0x5c
  | .divsd => 0x5e
  | .movsd => 0x10

namespace Instr

def pieces : Resolved → List Bytes
  | .pushRbp => [[0x55]]
  | .popRbp => [[0x5d]]
  | .movRbpRsp => [[0x48, 0x89, 0xe5]]
  | .movRspRbp => [[0x48, 0x89, 0xec]]
  | .ret => [[0xc3]]
  | .subRsp n => [[0x48, 0x83, 0xec, n]]
  | .addRsp n => [[0x48, 0x83, 0xc4, n]]
  | .storeRsp r => [[rex true r.code 0, 0x89, modrm 0 r.code 4, 0x24]]
  | .loadRsp r => [[rex true r.code 0, 0x8b, modrm 0 r.code 4, 0x24]]
  | .storeRspSd x => [[0xf2]] ++ rexPiece false x.code 0 ++ [[0x0f, 0x11, modrm 0 x.code 4, 0x24]]
  | .loadRspSd x => [[0xf2]] ++ rexPiece false x.code 0 ++ [[0x0f, 0x10, modrm 0 x.code 4, 0x24]]
  | .loadSd x r => [[0xf2]] ++ rexPiece false x.code r.code ++ [[0x0f, 0x10, modrm 0 x.code r.code]]
  | .movImm r imm => [[rex true 0 r.code, 0xb8 + (r.code &&& 7)], littleEndian 8 imm.toNat]
  | .movEdx imm => [[0xba], littleEndian 4 imm.toNat]
  | .mov d s => regReg [] true [0x89] s.code d.code
  | .xor32 r => regReg [] false [0x31] r.code r.code
  | .call r => (if 8 ≤ r.code then [[0x41]] else []) ++ [[0xff, modrm 3 2 r.code]]
  | .add d s => regReg [] true [0x01] s.code d.code
  | .sub d s => regReg [] true [0x29] s.code d.code
  | .imul d s => regReg [] true [0x0f, 0xaf] d.code s.code
  | .cqo => [[0x48, 0x99]]
  | .idiv r => regReg [] true [0xf7] 7 r.code
  | .neg r => regReg [] true [0xf7] 3 r.code
  | .sarOne r => regReg [] true [0xd1] 7 r.code
  | .test a b => regReg [] true [0x85] b.code a.code
  | .testImm r imm => regReg [] true [0xf7] 0 r.code ++ [littleEndian 4 imm.toNat]
  | .not r => regReg [] true [0xf7] 2 r.code
  | .cmpImm r imm => regReg [] true [0x83] 7 r.code ++ [[imm.toUInt8]]
  | .jump opcode distance => [[opcode, distance.toUInt8]]
  | .sse op d s => regReg [[0xf2]] false [0x0f, op.opcode] d.code s.code
  | .xorpd d s => regReg [[0x66]] false [0x0f, 0x57] d.code s.code
  | .ucomisd a b => regReg [[0x66]] false [0x0f, 0x2e] a.code b.code
  | .movq x r => regReg [[0x66]] true [0x0f, 0x6e] x.code r.code
  | .cvtsi2sd x r => regReg [[0xf2]] true [0x0f, 0x2a] x.code r.code
  | .cvttsd2si r x => regReg [[0xf2]] true [0x0f, 0x2c] r.code x.code

def encode (i : Resolved) : Bytes := i.pieces.flatten

end Instr

end OnePass.X86
