import OnePass.Binary64.Arithmetic
import OnePass.Buffer.Memory
import OnePass.Compiler.Generator

/-!
# Machines

What the machines of all architectures have in common: a byte of memory at every 64-bit address, a
world that computes doubles and has the routines that code calls, and runs of one instruction after
the other.
-/

set_option autoImplicit false

namespace OnePass

abbrev Ram := UInt64 → UInt8

namespace Ram

def load (r : Ram) (a : UInt64) (n : Nat) : Bytes :=
  (List.range n).map fun i => r (a + UInt64.ofNat i)

def word (r : Ram) (a : UInt64) : UInt64 := UInt64.ofNat (ofLittleEndian (r.load a 8))

def store (r : Ram) (a : UInt64) (bs : Bytes) : Ram := fun x =>
  bs.getD (x - a).toNat (r x)

def storeWord (r : Ram) (a v : UInt64) : Ram := r.store a (littleEndian 8 v.toNat)

def text (r : Ram) : Nat → UInt64 → Text
  | 0, _ => []
  | limit + 1, a => if r a = 0 then [] else r a :: r.text limit (a + 1)

-- Nothing is at address zero.
def textBelow (r : Ram) (free a : UInt64) : Text :=
  if a = 0 then [] else r.text (free - a).toNat a

end Ram

/-- What a machine depends on. A routine is known by its address, and may not return. -/
structure World (σ : Type) where
  doubles : Doubles
  routine : UInt64 → σ → Option σ

def World.ofSymbols {σ : Type} (D : Doubles) (s : Symbols) (serve : Routine → σ → σ) :
    World σ where
  doubles := D
  routine target m :=
    if target = s.pow then some (serve .pow m)
    else if target = s.fmod then some (serve .fmod m)
    else if target = s.concat then some (serve .concat m)
    else none

inductive Outcome (σ : Type) where
  | running (m : σ)
  | returned (m : σ)
  | trapped
  | stuck

def run {σ : Type} (step : σ → Outcome σ) : Nat → σ → Outcome σ
  | 0, m => .running m
  | limit + 1, m =>
    match step m with
    | .running m => run step limit m
    | o => o

end OnePass
