import OnePass.Arm64.Instr

/-!
# ARM64 encoding

The 32-bit word of each instruction: a fixed pattern with register numbers, immediates, a condition
or a branch distance set into its fields.
-/

set_option autoImplicit false

namespace OnePass.Arm64

def distanceField (distance : Int) (width : Nat) : UInt32 :=
  UInt32.ofNat (distance % Nat.pow 2 width).toNat

def field (v low : UInt32) : UInt32 := v <<< low

def IntOp.pattern : IntOp → UInt32
  | .add => 0x8b000000
  | .sub => 0xcb000000
  | .mul => 0x9b007c00
  | .sdiv => 0x9ac00c00

def FloatOp.pattern : FloatOp → UInt32
  | .fadd => 0x1e602800
  | .fsub => 0x1e603800
  | .fmul => 0x1e600800
  | .fdiv => 0x1e601800

def Instr.word : Resolved → UInt32
  | .stpFrame => 0xa9bf7bfd
  | .ldpFrame => 0xa8c17bfd
  | .movFpSp => 0x910003fd
  | .movSpFp => 0x910003bf
  | .ret => 0xd65f03c0
  | .strPre t => 0xf81f0fe0 ||| t.code
  | .ldrPost t => 0xf84107e0 ||| t.code
  | .strPreD t => 0xfc1f0fe0 ||| t.code
  | .ldrPostD t => 0xfc4107e0 ||| t.code
  | .ldrD t base => 0xfd400000 ||| field base.code 5 ||| t.code
  | .movz d imm half => 0xd2800000 ||| field half 21 ||| field imm.toUInt32 5 ||| d.code
  | .movk d imm half => 0xf2800000 ||| field half 21 ||| field imm.toUInt32 5 ||| d.code
  | .mov d m => 0xaa0003e0 ||| field m.code 16 ||| d.code
  | .fmov d n => 0x1e604000 ||| field n.code 5 ||| d.code
  | .blr n => 0xd63f0000 ||| field n.code 5
  | .int op d n m => op.pattern ||| field m.code 16 ||| field n.code 5 ||| d.code
  | .msub d n m a =>
    0x9b008000 ||| field m.code 16 ||| field a.code 10 ||| field n.code 5 ||| d.code
  | .neg d m => 0xcb0003e0 ||| field m.code 16 ||| d.code
  | .asrOne d n => 0x9341fc00 ||| field n.code 5 ||| d.code
  | .cmpZero n => 0xf100001f ||| field n.code 5
  | .csel d n m cond =>
    0x9a800000 ||| field m.code 16 ||| field cond 12 ||| field n.code 5 ||| d.code
  | .scvtf d n => 0x9e620000 ||| field n.code 5 ||| d.code
  | .fcvtzs d n => 0x9e780000 ||| field n.code 5 ||| d.code
  | .float op d n m => op.pattern ||| field m.code 16 ||| field n.code 5 ||| d.code
  | .fneg d n => 0x1e614000 ||| field n.code 5 ||| d.code
  | .b distance => 0x14000000 ||| distanceField distance 26
  | .bCond cond distance => 0x54000000 ||| cond ||| field (distanceField distance 19) 5
  | .cbz t distance => 0xb4000000 ||| t.code ||| field (distanceField distance 19) 5
  | .tbzBit0 t distance => 0x36000000 ||| t.code ||| field (distanceField distance 14) 5

end OnePass.Arm64
