import OnePass.Text.Basic

/-!
# Memory regions

A region of zero-filled memory. Only the cells up to the last one stored are kept; the rest of the
region reads as zero.
-/

set_option autoImplicit false

namespace OnePass

structure Memory where
  size : Nat
  cells : Array UInt8 := #[]
  deriving DecidableEq, Repr, Inhabited

namespace Memory

def zeroed (size : Nat) : Memory := { size }

def byte (m : Memory) (i : Nat) : UInt8 := m.cells.getD i 0

def set (m : Memory) (i : Nat) (b : UInt8) : Memory :=
  if i < m.cells.size then { m with cells := m.cells.setIfInBounds i b }
  else { m with cells := (m.cells ++ Array.replicate (i - m.cells.size) 0).push b }

def store (m : Memory) (i : Nat) : Bytes → Memory
  | [] => m
  | b :: bs => (m.set i b).store (i + 1) bs

def slice (m : Memory) (i n : Nat) : Bytes := (List.range n).map fun k => m.byte (i + k)

/-- The region cut to a smaller size; its cells stay. -/
def resize (m : Memory) (size : Nat) : Memory := { m with size }

end Memory

def littleEndian : Nat → Nat → Bytes
  | 0, _ => []
  | n + 1, v => UInt8.ofNat (v % 256) :: littleEndian n (v / 256)

def ofLittleEndian : Bytes → Nat
  | [] => 0
  | b :: bs => b.toNat + 256 * ofLittleEndian bs

end OnePass
