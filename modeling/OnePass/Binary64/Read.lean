import OnePass.Binary64.Arithmetic
import OnePass.Text.Numeral

/-!
# Reading doubles

A double is read from a decimal numeral, a hexadecimal numeral with a binary exponent, or a name of
infinity or of no number. Digits may be separated by underscores. The result is the nearest double.
-/

set_option autoImplicit false

namespace OnePass.Binary64

inductive ReadFault where
  | malformed
  | outOfRange
  deriving DecidableEq, Repr

def splitSign : Text → Bool × Text
  | 0x2b :: rest => (false, rest)
  | 0x2d :: rest => (true, rest)
  | rest => (false, rest)

structure Mantissa where
  digits : Text
  /-- How many of the digits stand behind the point. -/
  places : Nat
  rest : Text
  deriving DecidableEq, Repr

def mantissa (isDigit : UInt8 → Bool) (pointSeen : Bool) : Text → Mantissa
  | [] => ⟨[], 0, []⟩
  | c :: rest =>
    if c = 0x5f then mantissa isDigit pointSeen rest
    else if c = 0x2e ∧ !pointSeen then mantissa isDigit true rest
    else if isDigit c then
      let m := mantissa isDigit pointSeen rest
      { m with digits := c :: m.digits, places := if pointSeen then m.places + 1 else m.places }
    else ⟨[], 0, c :: rest⟩

def exponent? (s : Text) : Option Int :=
  let (negative, ds) := splitSign s
  match ds with
  | [] => none
  | d :: _ =>
    if Text.isDigit d && ds.all (fun c => Text.isDigit c || c = 0x5f) then
      let n : Int := Text.exponentOf (ds.filter Text.isDigit)
      some (if negative then -n else n)
    else none

inductive Before where
  | start
  | digit
  | underscore
  | other
  deriving DecidableEq, Repr

def underscoresBetween (isDigit : UInt8 → Bool) : Before → Text → Bool
  | before, [] => before ≠ .underscore
  | before, c :: rest =>
    if isDigit c then underscoresBetween isDigit .digit rest
    else if c = 0x5f then before = .digit && underscoresBetween isDigit .underscore rest
    else before ≠ .underscore && underscoresBetween isDigit .other rest

def hexBody? : Text → Option Text
  | 0x30 :: x :: c :: rest => if x = 0x78 || x = 0x58 then some (c :: rest) else none
  | _ => none

def orFault (x : Option Binary64) : Except ReadFault Binary64 :=
  match x with
  | some x => .ok x
  | none => .error .outOfRange

def readDecimal (s : Text) : Except ReadFault Binary64 :=
  let m := mantissa Text.isDigit false s
  let exponent :=
    match m.rest with
    | [] => some 0
    | c :: rest => if c = 0x65 || c = 0x45 then exponent? rest else none
  match exponent with
  | some e =>
    if m.digits ≠ [] ∧ underscoresBetween Text.isDigit .start s then
      orFault (ofDecimal? (Text.valueOf 10 m.digits) (e - m.places))
    else .error .malformed
  | none => .error .malformed

def readHex (s : Text) : Except ReadFault Binary64 :=
  let m := mantissa Text.isHexDigit false s
  let exponent :=
    match m.rest with
    | [] => none
    | c :: rest => if c = 0x70 || c = 0x50 then exponent? rest else none
  match exponent with
  | some e =>
    if m.digits ≠ [] ∧ underscoresBetween Text.isHexDigit .digit s then
      orFault (ofBinary? (Text.valueOf 16 m.digits) (e - 4 * m.places))
    else .error .malformed
  | none => .error .malformed

def read (s : Text) : Except ReadFault Binary64 := do
  let (negative, body) := splitSign s
  let name := Text.foldAscii body
  if Text.foldAscii s = utf8 "nan" then return nan
  if name = utf8 "inf" ∨ name = utf8 "infinity" then return withSign negative infinityBits
  let x ←
    match hexBody? body with
    | some digits => readHex digits
    | none => readDecimal body
  return if negative then x.neg else x

end OnePass.Binary64
