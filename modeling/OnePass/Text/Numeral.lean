import OnePass.Text.Basic

/-!
# Numerals

Decimal and hexadecimal numerals as texts, written without separators and read back digit by
digit.
-/

set_option autoImplicit false

namespace OnePass.Text

def digits (base n : Nat) : Text := (Nat.toDigits base n).map Char.toUInt8

def decimal (n : Nat) : Text := digits 10 n

def signed : Int → Text
  | .ofNat n => decimal n
  | .negSucc n => utf8 "-" ++ decimal (n + 1)

def explicitlySigned (z : Int) : Text :=
  if 0 ≤ z then utf8 "+" ++ signed z else signed z

def hex (n : Nat) : Text := digits 16 n

def padLeft (width : Nat) (b : UInt8) (s : Text) : Text := fill (width - s.length) b ++ s

def hexPadded (width n : Nat) : Text := padLeft width 0x30 (hex n)

def hexByte (b : UInt8) : Text := hexPadded 2 b.toNat

def isDigit (b : UInt8) : Bool := 0x30 ≤ b && b ≤ 0x39

def isHexDigit (b : UInt8) : Bool :=
  isDigit b || (0x61 ≤ b && b ≤ 0x66) || (0x41 ≤ b && b ≤ 0x46)

def digitValue (b : UInt8) : Nat :=
  if isDigit b then b.toNat - 0x30
  else if 0x61 ≤ b && b ≤ 0x66 then b.toNat - 0x61 + 10
  else if 0x41 ≤ b && b ≤ 0x46 then b.toNat - 0x41 + 10
  else 0

def valueOf (base : Nat) (ds : Text) : Nat :=
  ds.foldl (fun n d => n * base + digitValue d) 0

/-- An exponent that has reached this number is large enough: further digits do not count. -/
def largeExponent : Nat := 10000

/-- The exponent a run of decimal digits denotes: the number that they denote up to the digit at
which it becomes large. Only a numeral with thousands of zeros can tell it from the whole number. -/
def exponentOf (ds : Text) : Nat :=
  ds.foldl (fun n d => if n < largeExponent then n * 10 + digitValue d else n) 0

end OnePass.Text
