import OnePass.Text.Numeral
import OnePass.Text.Rune

/-!
# TOML strings

Basic strings with escapes and literal strings without, on one line or over several lines.
-/

set_option autoImplicit false

namespace OnePass.Toml

abbrev Reader (α : Type) := Text → Option (α × Text)

def quote : UInt8 := 0x22

def apostrophe : UInt8 := 0x27

def isBlank (b : UInt8) : Bool := b = 0x20 || b = 0x09

def isNewline (b : UInt8) : Bool := b = 0x0a || b = 0x0d

def codePoint (n : Nat) : Reader Text := fun s =>
  let digits := s.take n
  let code := Text.valueOf 16 digits
  if digits.length = n ∧ digits.all Text.isHexDigit ∧ code.isValidChar then
    some (Text.encodeChar (Char.ofNat code), s.drop n)
  else none

def escape : Reader Text
  | [] => none
  | c :: rest =>
    match c with
    | 0x62 => some ([0x08], rest)
    | 0x74 => some ([0x09], rest)
    | 0x6e => some ([0x0a], rest)
    | 0x66 => some ([0x0c], rest)
    | 0x72 => some ([0x0d], rest)
    | 0x65 => some ([0x1b], rest)
    | 0x22 => some ([0x22], rest)
    | 0x5c => some ([0x5c], rest)
    | 0x78 => codePoint 2 rest
    | 0x75 => codePoint 4 rest
    | 0x55 => codePoint 8 rest
    | _ => none

/-- What follows a backslash at the end of a line: the next text that is neither blank nor a line
end. -/
def continuedLine? (s : Text) : Option Text :=
  match s.dropWhile isBlank with
  | b :: rest =>
    if isNewline b then some (rest.dropWhile fun c => isBlank c || isNewline c) else none
  | [] => none

/-- A run of quotes in a string over several lines: less than three belong to it, three end it, and
up to `spare` more stand before its end. -/
def closing (q : UInt8) (spare : Nat) (s : Text) : Option (Sum (Text × Text) (Text × Text)) :=
  let run := s.takeWhile (· = q)
  let rest := s.drop run.length
  if run.length < 3 then some (.inl (run, rest))
  else if run.length ≤ 3 + spare then some (.inr (run.drop 3, rest))
  else none

def spareQuotes : Nat := 2

def basicLine : Nat → Reader Text
  | 0, _ => none
  | _ + 1, [] => none
  | fuel + 1, c :: rest =>
    if c = quote then some ([], rest)
    else if c = 0x5c then do
      let (piece, rest) ← escape rest
      let (body, rest) ← basicLine fuel rest
      return (piece ++ body, rest)
    else if isNewline c then none
    else do
      let (body, rest) ← basicLine fuel rest
      return (c :: body, rest)

/-- The body of a basic string over several lines. Right after an escaped backslash, one quote more
may stand before the end. -/
def basicLines : Nat → Nat → Reader Text
  | 0, _, _ => none
  | _ + 1, _, [] => none
  | fuel + 1, spare, c :: rest =>
    if c = quote then
      match closing quote spare (c :: rest) with
      | some (.inr final) => some final
      | some (.inl (quotes, rest)) => do
        let (body, rest) ← basicLines fuel spareQuotes rest
        return (quotes ++ body, rest)
      | none => none
    else if c = 0x5c then
      match continuedLine? rest with
      | some rest => basicLines fuel spareQuotes rest
      | none => do
        let afterBackslash := rest.head? = some 0x5c
        let (piece, rest) ← escape rest
        let (body, rest) ←
          basicLines fuel (if afterBackslash then spareQuotes + 1 else spareQuotes) rest
        return (piece ++ body, rest)
    else do
      let (body, rest) ← basicLines fuel spareQuotes rest
      return (c :: body, rest)

def literalLine : Reader Text := fun s =>
  let body := s.takeWhile fun c => c ≠ apostrophe && !isNewline c
  match s.drop body.length with
  | c :: rest => if c = apostrophe then some (body, rest) else none
  | [] => none

def literalLines : Nat → Reader Text
  | 0, _ => none
  | _ + 1, [] => none
  | fuel + 1, c :: rest =>
    if c = apostrophe then
      match closing apostrophe spareQuotes (c :: rest) with
      | some (.inr final) => some final
      | some (.inl (quotes, rest)) => do
        let (body, rest) ← literalLines fuel rest
        return (quotes ++ body, rest)
      | none => none
    else do
      let (body, rest) ← literalLines fuel rest
      return (c :: body, rest)

/-- A string over several lines does not count a line end right after its opening. -/
def afterFirstNewline : Text → Text
  | 0x0a :: rest => rest
  | 0x0d :: 0x0a :: rest => rest
  | s => s

def quotedLine : Reader Text
  | [] => none
  | c :: rest =>
    if c = quote then basicLine (rest.length + 1) rest
    else if c = apostrophe then literalLine rest
    else none

def string : Reader Text
  | 0x22 :: 0x22 :: 0x22 :: rest =>
    basicLines (rest.length + 1) spareQuotes (afterFirstNewline rest)
  | 0x27 :: 0x27 :: 0x27 :: rest => literalLines (rest.length + 1) (afterFirstNewline rest)
  | s => quotedLine s

end OnePass.Toml
