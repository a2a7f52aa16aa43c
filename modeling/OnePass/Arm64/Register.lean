import OnePass.Text.Basic

/-!
# ARM64 registers

The general purpose and floating-point registers that generated code may name. Number 31 is the
zero register.
-/

set_option autoImplicit false

namespace OnePass.Arm64

instance neZero_registers : @NeZero Nat Zero.ofOfNat0 32 := ⟨by decide⟩

structure Gp where
  index : Fin 32
  deriving DecidableEq, Repr, Inhabited

structure Fp where
  index : Fin 32
  deriving DecidableEq, Repr, Inhabited

namespace Gp

def table : List (String × Gp) :=
  [("x0", ⟨0⟩), ("x1", ⟨1⟩), ("x2", ⟨2⟩), ("x3", ⟨3⟩), ("x4", ⟨4⟩), ("x5", ⟨5⟩), ("x6", ⟨6⟩),
    ("x7", ⟨7⟩), ("x8", ⟨8⟩), ("x9", ⟨9⟩), ("x10", ⟨10⟩), ("x11", ⟨11⟩), ("x12", ⟨12⟩),
    ("x13", ⟨13⟩), ("x14", ⟨14⟩), ("x15", ⟨15⟩), ("x16", ⟨16⟩), ("x17", ⟨17⟩), ("x29", ⟨29⟩),
    ("x30", ⟨30⟩), ("xzr", ⟨31⟩)]

def ofName? (s : Text) : Option Gp := (table.find? (utf8 ·.1 = s)).map Prod.snd

def code (r : Gp) : UInt32 := UInt32.ofNat r.index

end Gp

namespace Fp

def table : List (String × Fp) :=
  [("d0", ⟨0⟩), ("d1", ⟨1⟩), ("d2", ⟨2⟩), ("d3", ⟨3⟩), ("d4", ⟨4⟩), ("d5", ⟨5⟩), ("d6", ⟨6⟩),
    ("d7", ⟨7⟩), ("d16", ⟨16⟩), ("d17", ⟨17⟩), ("d31", ⟨31⟩)]

def ofName? (s : Text) : Option Fp := (table.find? (utf8 ·.1 = s)).map Prod.snd

def code (r : Fp) : UInt32 := UInt32.ofNat r.index

end Fp

end OnePass.Arm64
