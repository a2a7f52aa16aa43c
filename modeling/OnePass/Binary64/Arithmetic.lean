import OnePass.Binary64.Basic

/-!
# Arithmetic on doubles

The four operations and powers are those of the hardware and its mathematical library. Remainder,
conversion and negation are exact, so they are computed on significands. Whoever computes with
doubles takes the operations from outside: which NaN comes of them is not settled here.
-/

set_option autoImplicit false

namespace OnePass

namespace Binary64

def toFloat (x : Binary64) : Float := Float.ofBits x.bits

def ofFloat (f : Float) : Binary64 := ⟨f.toBits⟩

def add (x y : Binary64) : Binary64 := ofFloat (x.toFloat + y.toFloat)

def sub (x y : Binary64) : Binary64 := ofFloat (x.toFloat - y.toFloat)

def mul (x y : Binary64) : Binary64 := ofFloat (x.toFloat * y.toFloat)

def div (x y : Binary64) : Binary64 := ofFloat (x.toFloat / y.toFloat)

def pow (x y : Binary64) : Binary64 := ofFloat (Float.pow x.toFloat y.toFloat)

/-- Negation flips the sign, also of a zero or a NaN. -/
def neg (x : Binary64) : Binary64 := ⟨x.bits ^^^ 0x8000000000000000⟩

def ofInt (z : Int) : Binary64 :=
  match nearestMagnitude? z.natAbs 1 with
  | some magnitude => withSign (z < 0) magnitude
  | none => withSign (z < 0) infinityBits

/-- The remainder of division truncated toward zero: it has the sign of `x` and is smaller than
`y` in magnitude. -/
def fmod (x y : Binary64) : Binary64 :=
  if x.isNaN || y.isNaN || x.isInfinite || y.isZero then nan
  else if y.isInfinite || x.isZero then x
  else
    let q := min x.exponent y.exponent
    let a := x.significand * Nat.pow 2 (x.exponent - q).toNat
    let b := y.significand * Nat.pow 2 (y.exponent - q).toNat
    let (n, d) := scaleDown (a % b) 1 (-q)
    withSign x.isNegative ((nearestMagnitude? n d).getD 0)

def truncate (x : Binary64) : Int :=
  let (n, d) := scaleDown x.significand 1 (-x.exponent)
  if x.isNegative then -((n / d : Nat) : Int) else (n / d : Nat)

/-- A double truncated toward zero to a 64-bit integer: what is too large or too small becomes the
greatest or the least one, and a NaN becomes zero. -/
def saturate (x : Binary64) : Int64 :=
  if x.isNaN then 0
  else if x.isInfinite then if x.isNegative then Int64.minValue else Int64.maxValue
  else if x.truncate < Int64.minValue.toInt then Int64.minValue
  else if Int64.maxValue.toInt < x.truncate then Int64.maxValue
  else Int64.ofInt x.truncate

end Binary64

/-- The operations on doubles that a processor and its mathematical library offer. -/
structure Doubles where
  add : Binary64 → Binary64 → Binary64
  sub : Binary64 → Binary64 → Binary64
  mul : Binary64 → Binary64 → Binary64
  div : Binary64 → Binary64 → Binary64
  pow : Binary64 → Binary64 → Binary64
  fmod : Binary64 → Binary64 → Binary64
  ofInt : Int64 → Binary64

def Doubles.standard : Doubles where
  add := .add
  sub := .sub
  mul := .mul
  div := .div
  pow := .pow
  fmod := .fmod
  ofInt n := .ofInt n.toInt

end OnePass
