import OnePass.Arm64.Decoding
import OnePass.Machine

/-!
# An ARM64 machine

Registers, flags and memory, and what each instruction does to them. The zero register reads as
zero and ignores what is written to it. What a called routine does and how doubles are computed are
parameters. The routines that generated code calls are those of the other machine, in the registers
of this one.
-/

set_option autoImplicit false

namespace OnePass.Arm64

structure Flags where
  negative : Bool
  zero : Bool
  carry : Bool
  overflow : Bool
  deriving DecidableEq, Repr

structure Machine where
  /-- The general purpose registers but for the zero register. -/
  gp : Vector UInt64 31
  sp : UInt64
  fp : Vector Binary64 32
  flags : Flags
  ram : Ram
  /-- The first address that no object uses yet. -/
  free : UInt64
  position : Nat

namespace Machine

def get (m : Machine) (r : Gp) : UInt64 :=
  if h : r.index.val < 31 then m.gp.get ⟨r.index, h⟩ else 0

def set (m : Machine) (r : Gp) (v : UInt64) : Machine :=
  if h : r.index.val < 31 then { m with gp := m.gp.set r.index v h } else m

def getF (m : Machine) (r : Fp) : Binary64 := m.fp.get r.index

def setF (m : Machine) (r : Fp) (v : Binary64) : Machine := { m with fp := m.fp.set r.index v }

def push (m : Machine) (v : UInt64) : Machine :=
  { m with sp := m.sp - 16, ram := m.ram.storeWord (m.sp - 16) v }

def drop (m : Machine) : Machine := { m with sp := m.sp + 16 }

def top (m : Machine) : UInt64 := m.ram.word m.sp

end Machine

def x0 : Gp := ⟨⟨0, by decide⟩⟩
def x1 : Gp := ⟨⟨1, by decide⟩⟩
def d0 : Fp := ⟨⟨0, by decide⟩⟩
def d1 : Fp := ⟨⟨1, by decide⟩⟩

def framePointer : Gp := ⟨⟨29, by decide⟩⟩

def linkRegister : Gp := ⟨⟨30, by decide⟩⟩

/-- Whether a register is the last one, which some instructions take for the stack pointer. -/
def Gp.isLast (r : Gp) : Bool := r.index.val = 31

def Machine.addressIn (m : Machine) (r : Gp) : UInt64 := if r.isLast then m.sp else m.get r

def holds (condition : UInt32) (f : Flags) : Bool :=
  let positive :=
    match (condition >>> 1).toNat with
    | 0 => f.zero
    | 1 => f.carry
    | 2 => f.negative
    | 3 => f.overflow
    | 4 => f.carry && !f.zero
    | 5 => f.negative == f.overflow
    | 6 => f.negative == f.overflow && !f.zero
    | _ => true
  if condition % 2 = 1 ∧ condition ≠ 15 then !positive else positive

def zeroFlags (v : UInt64) : Flags :=
  { negative := v.toInt64 < 0, zero := v = 0, carry := true, overflow := false }

def insertHalf (v : UInt64) (imm : UInt16) (half : UInt32) : UInt64 :=
  let shift := (16 * half).toUInt64
  (v &&& ~~~((0xffff : UInt64) <<< shift)) ||| (imm.toUInt64 <<< shift)

def quotient (a b : UInt64) : UInt64 :=
  if b = 0 then 0 else (a.toInt64 / b.toInt64).toUInt64

def IntOp.apply : IntOp → UInt64 → UInt64 → UInt64
  | .add, a, b => a + b
  | .sub, a, b => a - b
  | .mul, a, b => a * b
  | .sdiv, a, b => quotient a b

def FloatOp.apply (D : Doubles) : FloatOp → Binary64 → Binary64 → Binary64
  | .fadd => D.add
  | .fsub => D.sub
  | .fmul => D.mul
  | .fdiv => D.div

def next (m : Machine) : Outcome Machine := .running { m with position := m.position + 1 }

def branch (m : Machine) (distance : Int) : Outcome Machine :=
  let target := (m.position : Int) + distance
  if 0 ≤ target then .running { m with position := target.toNat } else .stuck

def branchIf (m : Machine) (condition : Bool) (distance : Int) : Outcome Machine :=
  if condition then branch m distance else next m

def call (world : World Machine) (base : UInt64) (m : Machine) (target : UInt64) :
    Outcome Machine :=
  match world.routine target (m.set linkRegister (base + 4 * UInt64.ofNat (m.position + 1))) with
  | some m => next m
  | none => .stuck

def enter (m : Machine) : Machine :=
  let sp := m.sp - 16
  let ram := m.ram.storeWord sp (m.get framePointer)
  { m with sp, ram := ram.storeWord (sp + 8) (m.get linkRegister) }

def leave (m : Machine) : Machine :=
  ((m.set framePointer (m.ram.word m.sp)).set linkRegister (m.ram.word (m.sp + 8))).drop

def execute (world : World Machine) (base : UInt64) (m : Machine) : Resolved → Outcome Machine
  | .stpFrame => next (enter m)
  | .ldpFrame => next (leave m)
  | .movFpSp => next (m.set framePointer m.sp)
  | .movSpFp => next { m with sp := m.get framePointer }
  | .ret => .returned m
  | .strPre t => next (m.push (m.get t))
  | .ldrPost t => next (m.drop.set t m.top)
  | .strPreD t => next (m.push (m.getF t).bits)
  | .ldrPostD t => next (m.drop.setF t ⟨m.top⟩)
  | .ldrD t b => next (m.setF t ⟨m.ram.word (m.addressIn b)⟩)
  | .movz d imm half => next (m.set d (insertHalf 0 imm half))
  | .movk d imm half => next (m.set d (insertHalf (m.get d) imm half))
  | .mov d s => next (m.set d (m.get s))
  | .fmov d s => next (m.setF d (m.getF s))
  | .blr n => call world base m (m.get n)
  | .int op d a b => next (m.set d (op.apply (m.get a) (m.get b)))
  | .msub d a b c => next (m.set d (m.get c - m.get a * m.get b))
  | .neg d s => next (m.set d (-(m.get s)))
  | .asrOne d s => next (m.set d ((m.get s).toInt64 >>> 1).toUInt64)
  | .cmpZero n => next { m with flags := zeroFlags (m.addressIn n) }
  | .csel d a b condition => next (m.set d (if holds condition m.flags then m.get a else m.get b))
  | .scvtf d s => next (m.setF d (world.doubles.ofInt (m.get s).toInt64))
  | .fcvtzs d s => next (m.set d (m.getF s).saturate.toUInt64)
  | .float op d a b => next (m.setF d (op.apply world.doubles (m.getF a) (m.getF b)))
  | .fneg d s => next (m.setF d (m.getF s).neg)
  | .b distance => branch m distance
  | .bCond condition distance => branchIf m (holds condition m.flags) distance
  | .cbz t distance => branchIf m (m.get t = 0) distance
  | .tbzBit0 t distance => branchIf m (m.get t &&& 1 = 0) distance

def step (world : World Machine) (base : UInt64) (code : Array UInt32) (m : Machine) :
    Outcome Machine :=
  match code[m.position]?.bind decode with
  | some i => execute world base m i
  | none => .stuck

def run (world : World Machine) (base : UInt64) (code : Array UInt32) (limit : Nat) (m : Machine) :
    Outcome Machine :=
  OnePass.run (step world base code) limit m

def Machine.textAt (m : Machine) (a : UInt64) : Text := m.ram.textBelow m.free a

def Machine.newText (m : Machine) (s : Text) : UInt64 × Machine :=
  let free := m.free + UInt64.ofNat (s.length + 1)
  (m.free, { m with ram := m.ram.store m.free (s ++ [0]), free })

def callPow (D : Doubles) (m : Machine) : Machine :=
  m.setF d0 (D.pow (m.getF d0) (m.getF d1))

def callFmod (D : Doubles) (m : Machine) : Machine :=
  m.setF d0 (D.fmod (m.getF d0) (m.getF d1))

def callConcat (m : Machine) : Machine :=
  let (address, m) := m.newText (m.textAt (m.get x0) ++ m.textAt (m.get x1))
  m.set x0 address

def serve (D : Doubles) : Routine → Machine → Machine
  | .pow => callPow D
  | .fmod => callFmod D
  | .concat => callConcat

def worldOf (D : Doubles) (s : Symbols) : World Machine := .ofSymbols D s (serve D)

end OnePass.Arm64
