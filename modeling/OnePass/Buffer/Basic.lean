import OnePass.Buffer.Failure
import OnePass.Buffer.Memory

/-!
# Buffers

A buffer is a cursor into a memory region that emitted bytes are appended at. The first failure is
kept, and from then on everything is dropped; bytes already emitted can be patched. Once committed,
a buffer can only be read: writing to it is a misuse.
-/

set_option autoImplicit false

namespace OnePass

structure Buffer where
  name : Text
  memory : Memory
  base : UInt64
  offset : Nat := 0
  failure : Option Failure := none
  committed : Bool := false
  deriving DecidableEq, Repr, Inhabited

namespace Buffer

def create (name : Text) (size : Nat) (base : UInt64) : Buffer :=
  { name, memory := Memory.zeroed size, base }

def capacity (b : Buffer) : Nat := b.memory.size

def address (b : Buffer) : UInt64 := b.base + UInt64.ofNat b.offset

def bytes (b : Buffer) : Bytes := b.memory.slice 0 b.offset

def fail (b : Buffer) (cause : Rejection) : Buffer :=
  match b.failure with
  | some _ => b
  | none => { b with failure := some (.rejected b.name cause) }

def overflows (b : Buffer) (n : Nat) : Bool :=
  !b.committed && b.failure.isNone && b.capacity - b.offset < n

def overflow (b : Buffer) (n : Nat) : Buffer :=
  { b with failure := some (.overflow b.name (b.offset + n) b.capacity) }

/-- Appends all of `bs` or, when it does not fit, nothing. -/
def append (b : Buffer) (bs : Bytes) : Except Misuse Buffer :=
  if b.committed then .error (.committed b.name)
  else if b.failure.isSome then .ok b
  else if b.capacity - b.offset < bs.length then .ok (b.overflow bs.length)
  else .ok { b with memory := b.memory.store b.offset bs, offset := b.offset + bs.length }

/-- The distance from the cursor to the next multiple of `n`, in 64-bit arithmetic. -/
def padding (b : Buffer) (n : Int64) : Int64 := (n - Int64.ofNat b.offset % n) % n

def align (b : Buffer) (n : Int64) : Except Misuse Buffer :=
  if n = 0 then .error .zeroAlignment
  else
    let pad := b.padding n
    if pad < 0 then
      if b.committed then .error (.committed b.name)
      else if b.failure.isSome then .ok b
      else .error (.bounds b.offset (b.offset + pad.toInt))
    else if b.overflows pad.toNatClampNeg then .ok (b.overflow pad.toNatClampNeg)
    else b.append (List.replicate pad.toNatClampNeg 0)

def patchByte (b : Buffer) (place : Int64) (v : UInt8) : Except Misuse Buffer :=
  if b.committed then .error (.committed b.name)
  else if b.failure.isSome then .ok b
  else if place < 0 ∨ place ≥ Int64.ofNat b.offset then .ok (b.fail (.patchOutside place b.offset))
  else .ok { b with memory := b.memory.set place.toNatClampNeg v }

def wordOutside (b : Buffer) (place : Int64) : Bool :=
  place < 0 || place + 4 > Int64.ofNat b.offset

def wordMissing (b : Buffer) (place : Int64) : Misuse :=
  if b.capacity < place.toNatClampNeg then .bounds place.toInt b.capacity
  else .index 3 (b.capacity - place.toNatClampNeg)

def patchWord (b : Buffer) (place : Int64) (v : UInt32) : Except Misuse Buffer :=
  if b.committed then .error (.committed b.name)
  else if b.failure.isSome then .ok b
  else if b.wordOutside place then .ok (b.fail (.patchOutside place b.offset))
  else if b.capacity < place.toNatClampNeg + 4 then .error (b.wordMissing place)
  else .ok { b with memory := b.memory.store place.toNatClampNeg (littleEndian 4 v.toNat) }

def readWord (b : Buffer) (place : Int64) : Except Misuse UInt32 :=
  if b.wordOutside place then .ok 0
  else if b.capacity < place.toNatClampNeg + 4 then .error (b.wordMissing place)
  else .ok (UInt32.ofNat (ofLittleEndian (b.memory.slice place.toNatClampNeg 4)))

def commit (b : Buffer) : Buffer := { b with committed := true }

end Buffer

end OnePass
