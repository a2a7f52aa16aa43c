import OnePass.Machine
import OnePass.X86.Decoding

/-!
# An x86-64 machine

Registers, flags and memory, and what each instruction does to them. The machine runs code from its
first byte until it returns. What a called routine does and how doubles are computed are parameters.
The routines that generated code calls take doubles in the first two float registers and leave one
in the first, or take the addresses of two texts and yield that of a new one.
-/

set_option autoImplicit false

namespace OnePass.X86

structure Flags where
  zero : Bool
  sign : Bool
  carry : Bool
  overflow : Bool
  parity : Bool
  deriving DecidableEq, Repr

structure Machine where
  gp : Vector UInt64 16
  xmm : Vector Binary64 16
  /-- The flags, while they are known. -/
  flags : Option Flags
  ram : Ram
  /-- The first address that no object uses yet. -/
  free : UInt64
  position : Nat

namespace Machine

def get (m : Machine) (r : Gp) : UInt64 := m.gp.get r.index

def set (m : Machine) (r : Gp) (v : UInt64) : Machine := { m with gp := m.gp.set r.index v }

def getX (m : Machine) (x : Xmm) : Binary64 := m.xmm.get x.index

def setX (m : Machine) (x : Xmm) (v : Binary64) : Machine := { m with xmm := m.xmm.set x.index v }

def withFlags (m : Machine) (f : Flags) : Machine := { m with flags := some f }

/-- The machine after an instruction whose flags nobody reads. -/
def clobberFlags (m : Machine) : Machine := { m with flags := none }

def storeWord (m : Machine) (a v : UInt64) : Machine := { m with ram := m.ram.storeWord a v }

def top (m : Machine) : UInt64 := m.ram.word (m.get .rsp)

def adjust (m : Machine) (n : UInt64) : Machine := m.set .rsp (m.get .rsp + n)

end Machine

def signExtend (b : UInt8) : UInt64 := b.toInt8.toInt64.toUInt64

def evenParity (v : UInt64) : Bool :=
  ((List.range 8).filter fun i => v.toNat / Nat.pow 2 i % 2 = 1).length % 2 = 0

def bitwiseFlags (v : UInt64) : Flags :=
  { zero := v = 0, sign := v.toInt64 < 0, carry := false, overflow := false,
    parity := evenParity v }

def compareFlags (a b : UInt64) : Flags :=
  let d := a - b
  { zero := d = 0, sign := d.toInt64 < 0, carry := a < b,
    overflow := d.toInt64.toInt ≠ a.toInt64.toInt - b.toInt64.toInt, parity := evenParity d }

/-- The flags of a comparison of doubles. A NaN is neither less, equal nor greater. -/
def floatFlags (a b : Binary64) : Flags :=
  if a.isNaN || b.isNaN then
    { zero := true, sign := false, carry := true, overflow := false, parity := true }
  else
    { zero := a.orderKey = b.orderKey, sign := false, carry := a.orderKey < b.orderKey,
      overflow := false, parity := false }

/-- A double truncated toward zero; the least integer stands for whatever does not fit. -/
def truncated (x : Binary64) : UInt64 :=
  if x.isFinite ∧ -0x8000000000000000 ≤ x.truncate ∧ x.truncate < 0x8000000000000000 then
    (Int64.ofInt x.truncate).toUInt64
  else 0x8000000000000000

def taken? (opcode : UInt8) (flags : Option Flags) : Option Bool :=
  match opcode with
  | 0xeb => some true
  | 0x71 => flags.map fun f => !f.overflow
  | 0x74 => flags.map (·.zero)
  | 0x76 => flags.map fun f => f.carry || f.zero
  | 0x78 => flags.map (·.sign)
  | 0x7a => flags.map (·.parity)
  | _ => none

def SseOp.apply (D : Doubles) : SseOp → Binary64 → Binary64 → Binary64
  | .addsd => D.add
  | .subsd => D.sub
  | .mulsd => D.mul
  | .divsd => D.div
  | .movsd => fun _ b => b

/-- Signed division of the double word `high:low`: quotient and remainder, if the quotient fits. -/
def divide? (high low divisor : UInt64) : Option (UInt64 × UInt64) :=
  let dividend := high.toInt64.toInt * 0x10000000000000000 + low.toNat
  let d := divisor.toInt64.toInt
  let q := dividend.tdiv d
  if d ≠ 0 ∧ -0x8000000000000000 ≤ q ∧ q < 0x8000000000000000 then
    some ((Int64.ofInt q).toUInt64, (Int64.ofInt (dividend.tmod d)).toUInt64)
  else none

def call (world : World Machine) (m : Machine) (target returnAddress : UInt64) : Outcome Machine :=
  match world.routine target ((m.adjust (-8)).storeWord (m.get .rsp - 8) returnAddress) with
  | some m => .running (m.adjust 8)
  | none => .stuck

def execute (world : World Machine) (base : UInt64) (m : Machine) : Resolved → Outcome Machine
  | .pushRbp => .running ((m.adjust (-8)).storeWord (m.get .rsp - 8) (m.get .rbp))
  | .popRbp => .running ((m.set .rbp m.top).adjust 8)
  | .movRbpRsp => .running (m.set .rbp (m.get .rsp))
  | .movRspRbp => .running (m.set .rsp (m.get .rbp))
  | .ret => .returned (m.adjust 8)
  | .subRsp n => .running (m.adjust (-signExtend n)).clobberFlags
  | .addRsp n => .running (m.adjust (signExtend n)).clobberFlags
  | .storeRsp r => .running (m.storeWord (m.get .rsp) (m.get r))
  | .loadRsp r => .running (m.set r m.top)
  | .storeRspSd x => .running (m.storeWord (m.get .rsp) (m.getX x).bits)
  | .loadRspSd x => .running (m.setX x ⟨m.top⟩)
  | .loadSd x r => .running (m.setX x ⟨m.ram.word (m.get r)⟩)
  | .movImm r v => .running (m.set r v)
  | .movEdx v => .running (m.set .rdx v.toUInt64)
  | .mov d s => .running (m.set d (m.get s))
  | .xor32 r => .running (m.set r 0).clobberFlags
  | .call r => call world m (m.get r) (base + UInt64.ofNat m.position)
  | .add d s => .running (m.set d (m.get d + m.get s)).clobberFlags
  | .sub d s => .running (m.set d (m.get d - m.get s)).clobberFlags
  | .imul d s => .running (m.set d (m.get d * m.get s)).clobberFlags
  | .cqo => .running (m.set .rdx (if (m.get .rax).toInt64 < 0 then -1 else 0))
  | .idiv s =>
    match divide? (m.get .rdx) (m.get .rax) (m.get s) with
    | some (q, r) => .running ((m.set .rax q).set .rdx r).clobberFlags
    | none => .trapped
  | .neg r => .running (m.set r (-(m.get r))).clobberFlags
  | .sarOne r => .running (m.set r ((m.get r).toInt64 >>> 1).toUInt64).clobberFlags
  | .test a b => .running (m.withFlags (bitwiseFlags (m.get a &&& m.get b)))
  | .testImm r v =>
    .running (m.withFlags (bitwiseFlags (m.get r &&& v.toInt32.toInt64.toUInt64)))
  | .not r => .running (m.set r (~~~(m.get r)))
  | .cmpImm r v => .running (m.withFlags (compareFlags (m.get r) v.toInt64.toUInt64))
  | .jump opcode distance =>
    match taken? opcode m.flags with
    | some true =>
      let target := (m.position : Int) + distance.toInt
      if 0 ≤ target then .running { m with position := target.toNat } else .stuck
    | some false => .running m
    | none => .stuck
  | .sse op d s => .running (m.setX d (op.apply world.doubles (m.getX d) (m.getX s)))
  | .xorpd d s => .running (m.setX d ⟨(m.getX d).bits ^^^ (m.getX s).bits⟩)
  | .ucomisd a b => .running (m.withFlags (floatFlags (m.getX a) (m.getX b)))
  | .movq x r => .running (m.setX x ⟨m.get r⟩)
  | .cvtsi2sd x r => .running (m.setX x (world.doubles.ofInt (m.get r).toInt64))
  | .cvttsd2si r x => .running (m.set r (truncated (m.getX x)))

def longestInstruction : Nat := 15

def step (world : World Machine) (base : UInt64) (code : Array UInt8) (m : Machine) :
    Outcome Machine :=
  let s := (code.extract m.position (m.position + longestInstruction)).toList
  match decode s with
  | some (i, rest) =>
    execute world base { m with position := m.position + (s.length - rest.length) } i
  | none => .stuck

def run (world : World Machine) (base : UInt64) (code : Array UInt8) (limit : Nat) (m : Machine) :
    Outcome Machine :=
  OnePass.run (step world base code) limit m

def Machine.textAt (m : Machine) (a : UInt64) : Text := m.ram.textBelow m.free a

def Machine.newText (m : Machine) (s : Text) : UInt64 × Machine :=
  let free := m.free + UInt64.ofNat (s.length + 1)
  (m.free, { m with ram := m.ram.store m.free (s ++ [0]), free })

def callPow (D : Doubles) (m : Machine) : Machine :=
  m.setX .xmm0 (D.pow (m.getX .xmm0) (m.getX .xmm1))

def callFmod (D : Doubles) (m : Machine) : Machine :=
  m.setX .xmm0 (D.fmod (m.getX .xmm0) (m.getX .xmm1))

def callConcat (m : Machine) : Machine :=
  let (address, m) := m.newText (m.textAt (m.get .rdi) ++ m.textAt (m.get .rsi))
  m.set .rax address

def serve (D : Doubles) : Routine → Machine → Machine
  | .pow => callPow D
  | .fmod => callFmod D
  | .concat => callConcat

def worldOf (D : Doubles) (s : Symbols) : World Machine := .ofSymbols D s (serve D)

end OnePass.X86
