import OnePass.Binary64.Basic

/-!
# Shortest decimal digits

The fewest decimal digits that read back as a given finite positive double, and of those the
digits nearest to it. A decimal reads back when it lies between the midpoints to the neighbouring
doubles; the midpoints themselves read back when the significand is even.
-/

set_option autoImplicit false

namespace OnePass.Binary64

/-- The decimal `0.d₁d₂… · 10^point`, its digits given as one number. -/
structure Decimal where
  digits : Nat
  count : Nat
  point : Int
  deriving DecidableEq, Repr

structure Interval where
  low : Nat
  value : Nat
  high : Nat
  den : Nat
  closed : Bool
  deriving DecidableEq, Repr

def interval (x : Binary64) : Interval :=
  let m := x.significand
  let up := Nat.pow 2 x.exponent.toNat
  let down := Nat.pow 2 (-x.exponent).toNat
  let below := if m = hiddenBit && -1074 < x.exponent then 4 * m - 1 else 4 * m - 2
  { low := below * up, value := 4 * m * up, high := (4 * m + 2) * up, den := 4 * down,
    closed := m % 2 = 0 }

def Interval.scale (i : Interval) (k : Int) : Interval :=
  if 0 ≤ k then
    let f := Nat.pow 10 k.toNat
    { i with low := i.low * f, value := i.value * f, high := i.high * f }
  else { i with den := i.den * Nat.pow 10 (-k).toNat }

def Interval.contains (i : Interval) (n : Nat) : Bool :=
  if i.closed then i.low ≤ n * i.den && n * i.den ≤ i.high
  else i.low < n * i.den && n * i.den < i.high

/-- The integer in the interval that is nearest to its value, if one of the two around the value
lies in it. -/
def Interval.nearest? (i : Interval) : Option Nat :=
  let n := i.value / i.den
  match i.contains n, i.contains (n + 1) with
  | false, false => none
  | true, false => some n
  | false, true => some (n + 1)
  | true, true => some (nearestNat i.value i.den)

/-- The place `k` with `10^(k-1) ≤ x < 10^k`. The logarithm leaves a handful of candidates. -/
def decimalPoint (i : Interval) : Int :=
  let spread : Int := (i.value.log2 : Int) - i.den.log2
  let guess := (spread - 1) * 30103 / 100000
  let fits (k : Int) : Bool :=
    if 0 ≤ k then i.value < i.den * Nat.pow 10 k.toNat else i.value * Nat.pow 10 (-k).toNat < i.den
  if fits guess then guess
  else if fits (guess + 1) then guess + 1
  else if fits (guess + 2) then guess + 2
  else guess + 3

def firstGrid (i : Interval) (point : Int) : Nat → Nat → Decimal
  | 0, count => { digits := 0, count, point }
  | tries + 1, count =>
    match (i.scale (count - point)).nearest? with
    | some n =>
      if n = Nat.pow 10 count then { digits := 1, count := 1, point := point + 1 }
      else { digits := n, count, point }
    | none => firstGrid i point tries (count + 1)

/-- The shortest decimal of a finite double other than zero, sign apart. Seventeen digits always
suffice. -/
def shortest (x : Binary64) : Decimal :=
  let i := x.interval
  firstGrid i (decimalPoint i) 17 1

end OnePass.Binary64
