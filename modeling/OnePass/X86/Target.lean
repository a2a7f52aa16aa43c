import OnePass.Target
import OnePass.X86.Assembler

/-!
# The x86-64 target

Each operation as a sequence of instructions. Values travel in `rax`, `rcx`, `xmm0` and `xmm1`;
`r11` and `xmm15` are scratch, division and powers also use `rdx`.
-/

set_option autoImplicit false

namespace OnePass.X86

def rax : Text := utf8 "rax"
def rdx : Text := utf8 "rdx"
def xmm15 : Text := utf8 "xmm15"

def roles : Roles :=
  { accumulator := rax, operand := utf8 "rcx",
    floatAccumulator := utf8 "xmm0", floatOperand := utf8 "xmm1",
    firstArgument := utf8 "rdi", secondArgument := utf8 "rsi",
    result := rax, floatResult := utf8 "xmm0", scratch := utf8 "r11" }

def targetName : Text := utf8 "x86_64"

def emitAll (w : Writer) (is : List Named) : Writer := is.foldl emit w

/-- Truncation toward zero that saturates, with zero for a NaN. The conversion yields the least
integer for everything out of range, and only that integer overflows when one is subtracted; it is
then looked at again. -/
def floatToInt (w : Writer) (reg freg : Text) : Writer :=
  let w := emitAll w [.cvttsd2si reg freg, .cmpImm reg 1]
  let (toDone, w) := jumpForward w jno (utf8 "jno done")
  let w := emit w (.ucomisd freg freg)
  let (toNaN, w) := jumpForward w jp (utf8 "jp nan")
  let w := emitAll w [.xorpd xmm15 xmm15, .ucomisd freg xmm15]
  let (toDone', w) := jumpForward w jbe (utf8 "jbe done")
  let w := emit w (.not reg)
  let (toDone'', w) := jumpForward w jmp (utf8 "jmp done")
  let w := emit (land w toNaN) (.xor32 reg)
  land (land (land w toDone) toDone') toDone''

/-- Guarded division. The instruction would trap on a zero divisor and on the least integer
divided by minus one; a zero divisor yields zero, and minus one negates or leaves no remainder. -/
def divide (w : Writer) (op : Operator) (dst src : Text) : Writer :=
  if dst ≠ rax ∨ src = rax ∨ src = rdx then w.fail (.divisionRegisters op dst src)
  else
    let w := emit w (.test src src)
    let (toZero, w) := jumpForward w jz (utf8 "jz zero")
    let w := emit w (.cmpImm src (-1))
    let (toMinusOne, w) := jumpForward w jz (utf8 "jz negone")
    let w := emitAll w [.cqo, .idiv src]
    let w := if op = .mod then emit w (.mov rax rdx) else w
    let (toDone, w) := jumpForward w jmp (utf8 "jmp done")
    let w := land w toMinusOne
    let w := if op = .div then emit w (.neg rax) else emit w (.xor32 rax)
    let (toDone', w) := jumpForward w jmp (utf8 "jmp done")
    let w := emit (land w toZero) (.xor32 rax)
    land (land w toDone) toDone'

/-- Powers by repeated squaring, collected in `rdx`. A negative exponent yields zero. -/
def power (w : Writer) (dst src : Text) : Writer :=
  if dst = rdx ∨ src = rdx ∨ dst = src then w.fail (.powerRegisters targetName rdx dst src)
  else
    let w := emitAll w [.movEdx 1, .test src src]
    let (toNegative, w) := jumpForward w js (utf8 "js neg")
    let loop := Int64.ofNat w.offset
    let w := emit w (.test src src)
    let (toDone, w) := jumpForward w jz (utf8 "jz done")
    let w := emit w (.testImm src 1)
    let (toSkip, w) := jumpForward w jz (utf8 "jz skip")
    let w := land (emit w (.imul rdx dst)) toSkip
    let w := emitAll w [.imul dst dst, .sarOne src]
    let w := jumpBack w jmp (utf8 "jmp loop") loop
    let w := emit (land w toNegative) (.xor32 rdx)
    emit (land w toDone) (.mov dst rdx)

def intBinary (w : Writer) (op : Operator) (dst src : Text) : Writer :=
  match op with
  | .add => emit w (.add dst src)
  | .sub => emit w (.sub dst src)
  | .mul => emit w (.imul dst src)
  | .div => divide w .div dst src
  | .mod => divide w .mod dst src
  | .pow => power w dst src
  | .unknown => w.fail (.integerOperator targetName op)

def floatBinary (w : Writer) (op : Operator) (dst src : Text) : Writer :=
  match op with
  | .add => emit w (.sse .addsd dst src)
  | .sub => emit w (.sse .subsd dst src)
  | .mul => emit w (.sse .mulsd dst src)
  | .div => emit w (.sse .divsd dst src)
  | _ => w.fail (.floatOperator targetName op)

def perform (w : Writer) : Operation → Writer
  | .prologue => emitAll w [.pushRbp, .movRbpRsp]
  | .epilogue => emitAll w [.movRspRbp, .popRbp, .ret]
  | .loadImmediate reg value => emit w (.movImm reg value)
  | .loadFloat freg address =>
    emitAll w [.movImm roles.scratch address, .loadSd freg roles.scratch]
  | .push reg => emitAll w [.subRsp stackSlotSize, .storeRsp reg]
  | .pop reg => emitAll w [.loadRsp reg, .addRsp stackSlotSize]
  | .pushFloat freg => emitAll w [.subRsp stackSlotSize, .storeRspSd freg]
  | .popFloat freg => emitAll w [.loadRspSd freg, .addRsp stackSlotSize]
  | .move dst src => if dst = src then w else emit w (.mov dst src)
  | .moveFloat dst src => if dst = src then w else emit w (.sse .movsd dst src)
  | .call address => emitAll w [.movImm roles.scratch address, .call roles.scratch]
  | .intToFloat freg reg => emit w (.cvtsi2sd freg reg)
  | .floatToInt reg freg => floatToInt w reg freg
  | .intBinary op dst src => intBinary w op dst src
  | .floatBinary op dst src => floatBinary w op dst src
  | .intNegate reg => emit w (.neg reg)
  | .floatNegate freg =>
    emitAll w [.movImm roles.scratch 0x8000000000000000, .movq xmm15 roles.scratch,
      .xorpd freg xmm15]

def target : Target := { arch := .x86, roles, perform }

end OnePass.X86
