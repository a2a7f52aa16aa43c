import OnePass.Buffer.Writer
import OnePass.Platform
import OnePass.Typing

/-!
# Targets

A target is an architecture that code can be generated for: its registers by role and how it
performs each operation that a compiler asks for. Operations are over register names. Every slot of
the native stack has sixteen bytes, which keeps the stack pointer aligned for calls.
-/

set_option autoImplicit false

namespace OnePass

structure Roles where
  accumulator : Text
  operand : Text
  floatAccumulator : Text
  floatOperand : Text
  firstArgument : Text
  secondArgument : Text
  result : Text
  floatResult : Text
  scratch : Text
  deriving DecidableEq, Repr

/-- One operation. The binary ones compute `dst op src` into `dst` and may spoil `src`. -/
inductive Operation where
  | prologue
  | epilogue
  | loadImmediate (reg : Text) (value : UInt64)
  | loadFloat (freg : Text) (address : UInt64)
  | push (reg : Text)
  | pop (reg : Text)
  | pushFloat (freg : Text)
  | popFloat (freg : Text)
  | move (dst src : Text)
  | moveFloat (dst src : Text)
  | call (address : UInt64)
  | intToFloat (freg reg : Text)
  | floatToInt (reg freg : Text)
  | intBinary (op : Operator) (dst src : Text)
  | floatBinary (op : Operator) (dst src : Text)
  | intNegate (reg : Text)
  | floatNegate (freg : Text)
  deriving DecidableEq, Repr

def stackSlotSize : UInt8 := 16

structure Target where
  arch : Arch
  roles : Roles
  perform : Writer → Operation → Writer

end OnePass
