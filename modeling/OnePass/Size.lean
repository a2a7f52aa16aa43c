import OnePass.Binary64.Read
import OnePass.Text.Lower
import OnePass.Text.Quoted

/-!
# Sizes

Numbers of bytes as people write them, with binary units: `64KiB`, `1.5m`, `4096`. Sizes of pages
must be moderate.
-/

set_option autoImplicit false

namespace OnePass.Size

inductive Fault where
  | noSize (s : Text)
  | number (s : Text) (fault : Binary64.ReadFault)
  | suffix (s : Text)
  | tooSmall (s : Text)
  | tooLarge (s : Text)
  deriving DecidableEq, Repr

def least : Nat := 64

def greatest : Nat := 0x40000000

def Fault.message : Fault → Text
  | .noSize s => utf8 "invalid size: '" ++ s ++ utf8 "'"
  | .number s fault =>
    utf8 "strconv.ParseFloat: parsing " ++ Text.quoted s ++
      (match fault with
        | .malformed => utf8 ": invalid syntax"
        | .outOfRange => utf8 ": value out of range")
  | .suffix s => utf8 "invalid suffix: '" ++ s ++ utf8 "'"
  | .tooSmall s => s ++ utf8 " is smaller than " ++ Text.decimal least ++ utf8 " bytes"
  | .tooLarge s => s ++ utf8 " is larger than 1GiB"

def endsNumber (b : UInt8) : Bool := Text.isDigit b || b = 0x2e || b = 0x20

/-- The number and the suffix of a size: the number goes as far as a digit, a point or a blank
does, and the blank itself belongs to neither. -/
def split? (s : Text) : Option (Text × Text) :=
  let suffix := (s.reverse.takeWhile fun b => !endsNumber b).reverse
  match (s.reverse.dropWhile fun b => !endsNumber b) with
  | [] => none
  | b :: number => some ((if b = 0x20 then number else b :: number).reverse, suffix)

def unit? (b : UInt8) : Option Nat :=
  match b with
  | 0x6b => some 1
  | 0x6d => some 2
  | 0x67 => some 3
  | 0x74 => some 4
  | 0x70 => some 5
  | _ => none

/-- Whether what follows a unit's letter is good: one byte must be `b` and two must be `ib`. A
longer rest, which arises when lower case takes more bytes, is not looked at. -/
def fitsUnit (rest : Text) : Bool :=
  match rest.length with
  | 1 => rest = utf8 "b"
  | 2 => rest = utf8 "ib"
  | _ => true

/-- The power of 1024 that a suffix in lower case stands for: `b` alone, or a unit's letter and
what may follow it. -/
def scale? : Text → Option Nat
  | [] => none
  | u :: rest =>
    if u = 0x62 then if rest = [] then some 0 else none
    else if fitsUnit rest then unit? u
    else none

/-- A double times a power of 1024, truncated to 64 bits; what does not fit becomes the least
integer. -/
def truncated (x : Binary64) (scale : Nat) : Int64 :=
  if x.isFinite then
    let n : Int := (x.significand * Nat.pow 1024 scale : Nat)
    let z :=
      if 0 ≤ x.exponent then n * Nat.pow 2 x.exponent.toNat
      else n / Nat.pow 2 (-x.exponent).toNat
    if z < 0x8000000000000000 then Int64.ofInt z else Int64.minValue
  else Int64.minValue

def bytes (s : Text) : Except Fault Int64 :=
  match split? s with
  | none => .error (.noSize s)
  | some (number, suffix) =>
    match Binary64.read number with
    | .error fault => .error (.number number fault)
    | .ok x =>
      if x.isNegative && !x.isZero && !x.isNaN then .error (.noSize s)
      else if suffix = [] then .ok (truncated x 0)
      else if 3 < suffix.length then .error (.suffix suffix)
      else
        match scale? (Text.lower suffix) with
        | some scale => .ok (truncated x scale)
        | none => .error (.suffix (Text.lower suffix))

abbrev Reader := Text → Except Fault Int64

def parseBy (read : Reader) (s : Text) : Except Fault Nat := do
  let n ← read s
  if n.toInt < least then .error (.tooSmall s)
  else if greatest < n.toInt then .error (.tooLarge s)
  else .ok n.toInt.toNat

def parse (s : Text) : Except Fault Nat := parseBy bytes s

def unitNames : List Text :=
  ["B", "KiB", "MiB", "GiB", "TiB", "PiB", "EiB", "ZiB", "YiB"].map utf8

/-- The first unit in which there are fewer than 1024, or the last one, with its weight. -/
def chooseUnit (n : Nat) : Nat → List Text → Nat × Text
  | weight, [] => (weight, [])
  | weight, [name] => (weight, name)
  | weight, name :: names =>
    if n < 1024 * weight then (weight, name) else chooseUnit n (1024 * weight) names

def precision : Nat := 4

/-- A quotient below 10000 with four significant digits at most, a half going to the even one. -/
def fourDigits (num den : Nat) : Text :=
  let wholeDigits := (Text.decimal (num / den)).length
  let places := if num / den = 0 then precision else precision - wholeDigits
  let scaled := Binary64.nearestNat (num * Nat.pow 10 places) den
  let fraction := Text.padLeft places 0x30 (Text.decimal (scaled % Nat.pow 10 places))
  let shown := (fraction.take places).reverse.dropWhile (· = 0x30)
  let whole := Text.decimal (scaled / Nat.pow 10 places)
  if places = 0 ∨ shown = [] then whole else whole ++ utf8 "." ++ shown.reverse

def text (n : Nat) : Text :=
  let (weight, name) := chooseUnit n 1 unitNames
  fourDigits n weight ++ name

end OnePass.Size
