import OnePass.Arm64.Assembler
import OnePass.Target

/-!
# The ARM64 target

Each operation as a sequence of instructions. Values travel in `x0`, `x1`, `d0` and `d1`; `x16` and
`x17` are scratch.
-/

set_option autoImplicit false

namespace OnePass.Arm64

def x17 : Text := utf8 "x17"

def roles : Roles :=
  { accumulator := utf8 "x0", operand := utf8 "x1",
    floatAccumulator := utf8 "d0", floatOperand := utf8 "d1",
    firstArgument := utf8 "x0", secondArgument := utf8 "x1",
    result := utf8 "x0", floatResult := utf8 "d0", scratch := utf8 "x16" }

def targetName : Text := utf8 "arm64"

def equal : UInt32 := 0x0
def less : UInt32 := 0xb

def emitAll (w : Writer) (is : List Named) : Writer := is.foldl emit w

def halfword (v : UInt64) (half : UInt32) : UInt16 := (v >>> (16 * half).toUInt64).toUInt16

/-- A move of any 64-bit number: the low half word, then every other one that is not zero. -/
def wideMoves (reg : Text) (v : UInt64) : List Named :=
  .movz reg (halfword v 0) 0 ::
    ([1, 2, 3].filter fun half => halfword v half ≠ 0).map fun half =>
      .movk reg (halfword v half) half

def modulo (w : Writer) (dst src : Text) : Writer :=
  emitAll w [.int .sdiv roles.scratch dst src, .msub dst roles.scratch src dst, .cmpZero src,
    .csel dst (utf8 "xzr") dst equal]

/-- Powers by repeated squaring, collected in `x17`. A negative exponent yields zero. -/
def power (w : Writer) (dst src : Text) : Writer :=
  if dst = x17 ∨ src = x17 ∨ dst = src then w.fail (.powerRegisters targetName x17 dst src)
  else
    let w := emitAll w [.movz x17 1 0, .cmpZero src]
    let (toNegative, w) := branchForward w (.bCond less 0)
    let loop := Int64.ofNat w.offset
    let (toDone, w) := branchForward w (.cbz src 0)
    let (toSkip, w) := branchForward w (.tbzBit0 src 0)
    let w := land (emit w (.int .mul x17 x17 dst)) toSkip
    let w := emitAll w [.int .mul dst dst dst, .asrOne src src]
    let w := branchBack w loop
    let w := emit (land w toNegative) (.movz x17 0 0)
    emit (land w toDone) (.mov dst x17)

/-- Division needs no guard: the instruction yields zero for a zero divisor and wraps. -/
def intBinary (w : Writer) (op : Operator) (dst src : Text) : Writer :=
  match op with
  | .add => emit w (.int .add dst dst src)
  | .sub => emit w (.int .sub dst dst src)
  | .mul => emit w (.int .mul dst dst src)
  | .div => emit w (.int .sdiv dst dst src)
  | .mod => modulo w dst src
  | .pow => power w dst src
  | .unknown => w.fail (.integerOperator targetName op)

def floatBinary (w : Writer) (op : Operator) (dst src : Text) : Writer :=
  match op with
  | .add => emit w (.float .fadd dst dst src)
  | .sub => emit w (.float .fsub dst dst src)
  | .mul => emit w (.float .fmul dst dst src)
  | .div => emit w (.float .fdiv dst dst src)
  | _ => w.fail (.floatOperator targetName op)

def perform (w : Writer) : Operation → Writer
  | .prologue => emitAll w [.stpFrame, .movFpSp]
  | .epilogue => emitAll w [.movSpFp, .ldpFrame, .ret]
  | .loadImmediate reg value => emitAll w (wideMoves reg value)
  | .loadFloat freg address =>
    emitAll w (wideMoves roles.scratch address ++ [.ldrD freg roles.scratch])
  | .push reg => emit w (.strPre reg)
  | .pop reg => emit w (.ldrPost reg)
  | .pushFloat freg => emit w (.strPreD freg)
  | .popFloat freg => emit w (.ldrPostD freg)
  | .move dst src => if dst = src then w else emit w (.mov dst src)
  | .moveFloat dst src => if dst = src then w else emit w (.fmov dst src)
  | .call address => emitAll w (wideMoves roles.scratch address ++ [.blr roles.scratch])
  | .intToFloat freg reg => emit w (.scvtf freg reg)
  | .floatToInt reg freg => emit w (.fcvtzs reg freg)
  | .intBinary op dst src => intBinary w op dst src
  | .floatBinary op dst src => floatBinary w op dst src
  | .intNegate reg => emit w (.neg reg reg)
  | .floatNegate freg => emit w (.fneg freg freg)

def target : Target := { arch := .arm64, roles, perform }

end OnePass.Arm64
