/-!
# Doubles

A double is its 64-bit pattern: a sign, an exponent field and a fraction. A finite pattern denotes
`±m · 2^q` for natural `m` and integer `q`; this module reads patterns as such numbers, rounds
exact quotients to the nearest pattern and orders patterns. Equal patterns are equal doubles here,
so the two zeros and the many NaNs stay apart.
-/

set_option autoImplicit false

namespace OnePass

structure Binary64 where
  bits : UInt64
  deriving DecidableEq, Repr, Inhabited

namespace Binary64

def ofNat (n : Nat) : Binary64 := ⟨UInt64.ofNat n⟩

def signWeight : Nat := 0x8000000000000000

/-- The bit that significands of normal numbers have and patterns leave out. -/
def hiddenBit : Nat := 0x10000000000000

def infinityBits : Nat := 0x7ff * hiddenBit

def isNegative (x : Binary64) : Bool := signWeight ≤ x.bits.toNat

def magnitude (x : Binary64) : Nat := x.bits.toNat % signWeight

def isNaN (x : Binary64) : Bool := infinityBits < x.magnitude

def isInfinite (x : Binary64) : Bool := x.magnitude = infinityBits

def isFinite (x : Binary64) : Bool := x.magnitude < infinityBits

def isZero (x : Binary64) : Bool := x.magnitude = 0

def withSign (negative : Bool) (magnitude : Nat) : Binary64 :=
  ofNat (if negative then signWeight + magnitude else magnitude)

def nan : Binary64 := ofNat (infinityBits + hiddenBit / 2)

def significand (x : Binary64) : Nat :=
  if x.magnitude < hiddenBit then x.magnitude else hiddenBit + x.magnitude % hiddenBit

def exponent (x : Binary64) : Int :=
  if x.magnitude < hiddenBit then -1074 else (x.magnitude / hiddenBit : Nat) - 1075

/-- A quotient rounded to the nearest natural number, a half going to the even one. -/
def nearestNat (num den : Nat) : Nat :=
  let q := num / den
  let twice := 2 * (num % den)
  if twice < den then q
  else if den < twice then q + 1
  else if q % 2 = 0 then q else q + 1

def scaleDown (num den : Nat) (q : Int) : Nat × Nat :=
  if 0 ≤ q then (num, den * Nat.pow 2 q.toNat) else (num * Nat.pow 2 (-q).toNat, den)

/-- The magnitude nearest to a quotient, ties going to the even pattern; none when it would be
infinite. A significand that rounds up to `2^53` carries into the exponent field by itself. -/
def nearestMagnitude? (num den : Nat) : Option Nat :=
  if num = 0 then some 0
  else
    let spread : Int := (num.log2 : Int) - den.log2
    let first : Int := max (spread - 53) (-1074)
    let (n, d) := scaleDown num den first
    let q := if 2 * hiddenBit ≤ n / d then first + 1 else first
    let (n, d) := scaleDown num den q
    let pattern := (q + 1074).toNat * hiddenBit + nearestNat n d
    if pattern < infinityBits then some pattern else none

/-- The double nearest to `digits · 10^exponent`; none when it would be infinite. Exponents far
outside the range of doubles are settled without computing the power. -/
def ofDecimal? (digits : Nat) (exponent : Int) : Option Binary64 :=
  if digits = 0 then some (ofNat 0)
  else if 400 < exponent then none
  else if exponent < -(400 + digits.log2) then some (ofNat 0)
  else if 0 ≤ exponent then (nearestMagnitude? (digits * Nat.pow 10 exponent.toNat) 1).map ofNat
  else (nearestMagnitude? digits (Nat.pow 10 (-exponent).toNat)).map ofNat

def ofBinary? (digits : Nat) (exponent : Int) : Option Binary64 :=
  if digits = 0 then some (ofNat 0)
  else if 2000 < exponent then none
  else if exponent < -(2000 + digits.log2) then some (ofNat 0)
  else if 0 ≤ exponent then (nearestMagnitude? (digits * Nat.pow 2 exponent.toNat) 1).map ofNat
  else (nearestMagnitude? digits (Nat.pow 2 (-exponent).toNat)).map ofNat

/-- A key that orders the patterns other than NaNs as the numbers they denote; both zeros have
key zero. -/
def orderKey (x : Binary64) : Int := if x.isNegative then -(x.magnitude : Int) else x.magnitude

end Binary64

end OnePass
