import OnePass.Binary64.Read
import OnePass.Toml.Strings

/-!
# TOML numbers and dates

Which words are numbers, and which are dates and times. Their values are of no use here, so only
their form and range are checked.
-/

set_option autoImplicit false

namespace OnePass.Toml

def isDigitRun (isDigit : UInt8 → Bool) (s : Text) : Bool :=
  s ≠ [] && s.all (fun c => isDigit c || c = 0x5f) && Binary64.underscoresBetween isDigit .start s

def isWhole (s : Text) : Bool :=
  isDigitRun Text.isDigit s && (s.head? ≠ some 0x30 || s.length = 1)

def integerLimit : Nat := 0x8000000000000000

def runValue (base : Nat) (s : Text) : Nat := Text.valueOf base (s.filter (· ≠ 0x5f))

def isInteger (w : Text) : Bool :=
  match w with
  | 0x30 :: 0x78 :: ds => isDigitRun Text.isHexDigit ds && runValue 16 ds < integerLimit
  | 0x30 :: 0x6f :: ds =>
    isDigitRun (fun c => 0x30 ≤ c && c ≤ 0x37) ds && runValue 8 ds < integerLimit
  | 0x30 :: 0x62 :: ds =>
    isDigitRun (fun c => 0x30 ≤ c && c ≤ 0x31) ds && runValue 2 ds < integerLimit
  | _ =>
    let (negative, ds) := Binary64.splitSign w
    isWhole ds && runValue 10 ds < (if negative then integerLimit + 1 else integerLimit)

def isFloat (w : Text) : Bool :=
  let (_, s) := Binary64.splitSign w
  if s = utf8 "inf" || s = utf8 "nan" then true
  else
    let isMark := fun c => c = 0x65 || c = 0x45
    let mantissa := s.takeWhile fun c => !isMark c
    let exponent := s.drop mantissa.length
    let whole := mantissa.takeWhile (· ≠ 0x2e)
    let fraction := mantissa.drop whole.length
    isWhole whole && (fraction ≠ [] || exponent ≠ []) &&
      (fraction = [] || isDigitRun Text.isDigit (fraction.drop 1)) &&
      (exponent = [] || isDigitRun Text.isDigit (Binary64.splitSign (exponent.drop 1)).2) &&
      (Binary64.read (s.filter (· ≠ 0x5f))).toBool

def digitGroup (n : Nat) : Reader Nat := fun s =>
  let ds := s.take n
  if ds.length = n ∧ ds.all Text.isDigit then some (Text.valueOf 10 ds, s.drop n) else none

def daysIn (year month : Nat) : Nat :=
  let leap := year % 4 = 0 && (year % 100 ≠ 0 || year % 400 = 0)
  if month = 2 then if leap then 29 else 28
  else if month = 4 || month = 6 || month = 9 || month = 11 then 30
  else 31

def afterDate? (s : Text) : Option Text := do
  let (year, s) ← digitGroup 4 s
  let s ← Text.after? (utf8 "-") s
  let (month, s) ← digitGroup 2 s
  let s ← Text.after? (utf8 "-") s
  let (day, s) ← digitGroup 2 s
  if 1 ≤ month ∧ month ≤ 12 ∧ 1 ≤ day ∧ day ≤ daysIn year month then some s else none

def afterFraction? (s : Text) : Option Text :=
  match s with
  | 0x2e :: rest =>
    let ds := rest.takeWhile Text.isDigit
    if ds = [] then none else some (rest.drop ds.length)
  | _ => some s

def afterTime? (s : Text) : Option Text := do
  let (hour, s) ← digitGroup 2 s
  let s ← Text.after? (utf8 ":") s
  let (minute, s) ← digitGroup 2 s
  if 24 ≤ hour ∨ 60 ≤ minute then none
  else
    match s with
    | 0x3a :: s => do
      let (second, s) ← digitGroup 2 s
      if 60 ≤ second then none else afterFraction? s
    | _ => some s

def isOffset (s : Text) : Bool :=
  match s with
  | [] => true
  | [z] => z = 0x5a || z = 0x7a
  | sign :: rest =>
    (sign = 0x2b || sign = 0x2d) &&
      (do
        let (hour, s) ← digitGroup 2 rest
        let s ← Text.after? (utf8 ":") s
        let (minute, s) ← digitGroup 2 s
        return decide (hour ≤ 24 ∧ minute ≤ 60 ∧ s = [])).getD false

def isDate (w : Text) : Bool := afterDate? w = some []

def isZonedTime (w : Text) : Bool := ((afterTime? w).map isOffset).getD false

def isMoment (w : Text) : Bool :=
  match afterDate? w with
  | some [] => true
  | some (t :: rest) => (t = 0x54 || t = 0x74) && isZonedTime rest
  | none => afterTime? w = some []

def isWordByte (c : UInt8) : Bool :=
  Text.isDigit c || (0x41 ≤ c && c ≤ 0x5a) || (0x61 ≤ c && c ≤ 0x7a) || c = 0x5f || c = 0x2b ||
    c = 0x2d || c = 0x2e || c = 0x3a

end OnePass.Toml
