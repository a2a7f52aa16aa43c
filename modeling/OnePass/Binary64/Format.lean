import OnePass.Binary64.Shortest
import OnePass.Text.Numeral

/-!
# Doubles as texts

A double is written with its shortest digits, positionally while the exponent is moderate and in
scientific form otherwise.
-/

set_option autoImplicit false

namespace OnePass.Binary64

structure Layout where
  leastPositional : Int
  positionalBelow : Int
  exponentWidth : Nat

/-- Numbers from `0.0001` up to, not including, a million are written positionally; exponents have
a sign and at least two digits. -/
def layout : Layout := { leastPositional := -4, positionalBelow := 6, exponentWidth := 2 }

def positional (ds : Text) (places : Int) : Text :=
  if places ≤ 0 then utf8 "0." ++ Text.fill (-places).toNat 0x30 ++ ds
  else
    let n := places.toNat
    let whole := ds.take n ++ Text.fill (n - ds.length) 0x30
    match ds.drop n with
    | [] => whole
    | fraction => whole ++ utf8 "." ++ fraction

def scientific (ds : Text) (exponent : Int) (width : Nat) : Text :=
  let mantissa :=
    match ds with
    | d :: e :: rest => d :: 0x2e :: e :: rest
    | _ => ds
  let sign := if exponent < 0 then utf8 "-" else utf8 "+"
  mantissa ++ utf8 "e" ++ sign ++ Text.padLeft width 0x30 (Text.decimal exponent.natAbs)

def Decimal.text (d : Decimal) (l : Layout) : Text :=
  let ds := Text.decimal d.digits
  let exponent := d.point - 1
  if exponent < l.leastPositional || l.positionalBelow ≤ exponent then
    scientific ds exponent l.exponentWidth
  else positional ds d.point

def text (x : Binary64) : Text :=
  if x.isNaN then utf8 "NaN"
  else if x.isInfinite then if x.isNegative then utf8 "-Inf" else utf8 "+Inf"
  else
    let sign := if x.isNegative then utf8 "-" else []
    if x.isZero then sign ++ utf8 "0" else sign ++ x.shortest.text layout

end OnePass.Binary64
