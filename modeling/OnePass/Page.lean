import OnePass.Buffer.Basic

/-!
# Pages

Memory that holds generated code or its constants. A page starts writable, is filled, and is then
made executable or read-only for good, until it is released. It is never writable and executable
at once.
-/

set_option autoImplicit false

namespace OnePass

inductive Protection where
  | writable
  | executable
  | readOnly
  | released
  deriving DecidableEq, Repr, Inhabited

def Protection.name : Protection → Text
  | .writable => utf8 "rw-"
  | .executable => utf8 "r-x"
  | .readOnly => utf8 "r--"
  | .released => utf8 "released"

inductive Refusal where
  | noMemory
  | badLength
  deriving DecidableEq, Repr

def Refusal.message : Refusal → Text
  | .noMemory => utf8 "cannot allocate memory"
  | .badLength => utf8 "invalid argument"

inductive PageFault where
  | notWritable (state : Protection)
  | protection (before after : Protection)
  | released
  | refused (size : Int64) (why : Refusal)
  deriving DecidableEq, Repr

def PageFault.message : PageFault → Text
  | .notWritable state => utf8 "execmem: page is " ++ state.name ++ utf8 ", not writable"
  | .protection before after =>
    utf8 "protection change failed: " ++ before.name ++ utf8 " -> " ++ after.name
  | .released => utf8 "page already released"
  | .refused size why =>
    utf8 "out of memory: mmap " ++ Text.signed size.toInt ++ utf8 " bytes: " ++ why.message

structure Page where
  memory : Memory
  state : Protection := .writable
  deriving DecidableEq, Repr, Inhabited

namespace Page

def granularity : Nat := 4096

/-- A size in whole pages of the system, at least one, in 64-bit arithmetic. -/
def roundedSize (size : Int64) (unit : Nat := granularity) : Int64 :=
  let n := if size ≤ 0 then 1 else size
  (n + (Int64.ofNat unit - 1)) &&& ~~~(Int64.ofNat unit - 1)

def allocate (grants : Nat → Bool) (size : Int64) (unit : Nat := granularity) :
    Except PageFault Page :=
  let n := roundedSize size unit
  if n ≤ 0 then .error (.refused n .badLength)
  else if grants n.toNatClampNeg then .ok { memory := Memory.zeroed n.toNatClampNeg }
  else .error (.refused n .noMemory)

def isMapped (p : Page) : Bool := p.state ≠ .released

def size (p : Page) : Nat := if p.isMapped then p.memory.size else 0

def writable (p : Page) : Except PageFault Memory :=
  if p.state = .writable then .ok p.memory else .error (.notWritable p.state)

def fill (p : Page) (bs : Bytes) : Except PageFault (Nat × Page) := do
  let memory ← p.writable
  let bs := bs.take memory.size
  return (bs.length, { p with memory := memory.store 0 bs })

def snapshot (p : Page) (n : Nat) : Except PageFault Bytes :=
  if p.isMapped then .ok (p.memory.slice 0 (min n p.memory.size)) else .error .released

def become (p : Page) (state : Protection) : Except PageFault Page :=
  if p.state = .released then .error .released
  else if p.state = state then .ok p
  else if p.state = .writable then .ok { p with state }
  else .error (.protection p.state state)

def makeExecutable (p : Page) : Except PageFault Page := p.become .executable

def makeReadOnly (p : Page) : Except PageFault Page := p.become .readOnly

def release (p : Page) : Page :=
  if p.isMapped then { memory := Memory.zeroed 0, state := .released } else p

def buffer (p : Page) (name : Text) (limit : Int) (address : UInt64) : Except PageFault Buffer := do
  let memory ← p.writable
  let size := if 0 < limit ∧ limit < memory.size then limit.toNat else memory.size
  return { name, memory := memory.resize size, base := address }

def ofBuffer (p : Page) (b : Buffer) : Page := { p with memory := b.memory.resize p.memory.size }

end Page

end OnePass
