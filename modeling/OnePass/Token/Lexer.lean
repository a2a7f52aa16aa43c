import OnePass.Token.Basic

/-!
# Reading tokens

`tokenize` reads a source into tokens. It accepts every text: what fits no rule becomes an illegal
lexeme that says why, and the list always ends with the end of input. Between lexemes, blanks and
line ends are passed over; a line end inside a string literal, which only an escape can put there,
does not count as a new line.
-/

set_option autoImplicit false

namespace OnePass

open Text

namespace Lexeme

/-- Letters among the single bytes read as code points. -/
def isLetter (b : UInt8) : Bool :=
  (0x41 ≤ b && b ≤ 0x5a) || (0x61 ≤ b && b ≤ 0x7a) || b = 0xaa || b = 0xb5 || b = 0xba ||
    (0xc0 ≤ b && b ≤ 0xd6) || (0xd8 ≤ b && b ≤ 0xf6) || 0xf8 ≤ b

def startsWord (b : UInt8) : Bool := isLetter b || b = 0x5f

def continuesWord (b : UInt8) : Bool := isLetter b || isDigit b || b = 0x5f

def ofWord (name : Text) : Lexeme :=
  if name = utf8 "null" then .null
  else if name = utf8 "true" then .bool true
  else if name = utf8 "false" then .bool false
  else .word name

/-- What a backslash and the character after it stand for; a character without a meaning of its
own keeps the backslash. -/
def escapeMeaning (c : Char) : List Char :=
  match c.toNat with
  | 0x6e => ['\n']
  | 0x74 => ['\t']
  | 0x72 => ['\r']
  | 0x5c => [c]
  | 0x22 => [c]
  | 0x27 => [c]
  | _ => [Char.ofNat 0x5c, c]

def unescape : List Char → List Char
  | [] => []
  | [c] => [c]
  | b :: c :: rest =>
    if b.toNat = 0x5c then escapeMeaning c ++ unescape rest else b :: unescape (c :: rest)

inductive BodyEnd where
  | closed
  | brokenLine
  | unfinished
  deriving DecidableEq, Repr

/-- How the body of a string literal ends, and its length. A backslash takes the byte after it
along, whatever it is. -/
def bodyEnd (quote : UInt8) : Text → BodyEnd × Nat
  | [] => (.unfinished, 0)
  | b :: rest =>
    if b = quote then (.closed, 0)
    else if b = newline then (.brokenLine, 0)
    else if b = 0x5c then
      match rest with
      | [] => (.unfinished, 1)
      | _ :: rest => ((bodyEnd quote rest).1, (bodyEnd quote rest).2 + 2)
    else ((bodyEnd quote rest).1, (bodyEnd quote rest).2 + 1)

def scanString (quote : UInt8) (rest : Text) : Lexeme × Nat :=
  match bodyEnd quote rest with
  | (.brokenLine, n) => (.illegal (utf8 "newline in string literal"), n + 1)
  | (.unfinished, n) => (.illegal (utf8 "unterminated string literal"), n + 1)
  | (.closed, n) =>
    let value := ofRunes (unescape (runes (rest.take n)))
    if value.contains 0 then (.illegal (utf8 "NUL byte in string literal"), n + 2)
    else (.string value, n + 2)

def malformedNumber (spelling : Text) : Lexeme :=
  .illegal (utf8 "malformed number literal " ++ quoted spelling)

/-- A literal in base `base` after its two-byte mark. It is a bit pattern, so all 64 bits may be
used. -/
def scanPattern (base : Nat) (mark : UInt8) (rest : Text) : Lexeme × Nat :=
  let run := rest.takeWhile isHexDigit
  let spelling := 0x30 :: mark :: run
  let value := valueOf base run
  if run ≠ [] ∧ run.all (digitValue · < base) ∧ value < 0x10000000000000000 then
    (.int (UInt64.ofNat value).toInt64 spelling, run.length + 2)
  else (malformedNumber spelling, run.length + 2)

def fractionLength : Text → Nat
  | 0x2e :: d :: rest => if isDigit d then (rest.takeWhile isDigit).length + 2 else 0
  | _ => 0

def signLength : Text → Nat
  | b :: _ => if b = 0x2b || b = 0x2d then 1 else 0
  | [] => 0

def exponentLength : Text → Nat
  | b :: rest =>
    if b = 0x65 || b = 0x45 then
      let n := ((rest.drop (signLength rest)).takeWhile isDigit).length
      if n = 0 then 0 else n + signLength rest + 1
    else 0
  | [] => 0

def exponentValue : Text → Int
  | _ :: 0x2d :: ds => -(exponentOf ds : Int)
  | _ :: 0x2b :: ds => exponentOf ds
  | _ :: ds => exponentOf ds
  | [] => 0

def scanDecimal (s : Text) : Lexeme × Nat :=
  let whole := s.takeWhile isDigit
  let rest := s.drop whole.length
  let fraction := rest.take (fractionLength rest)
  let rest := rest.drop fraction.length
  let exponent := rest.take (exponentLength rest)
  let spelling := whole ++ fraction ++ exponent
  if fraction = [] ∧ exponent = [] then
    let value := valueOf 10 whole
    if value < 0x8000000000000000 then (.int (Int64.ofNat value) spelling, spelling.length)
    else (.illegal (utf8 "integer literal " ++ spelling ++ utf8 " out of range"), spelling.length)
  else
    let places := (fraction.drop 1)
    match Binary64.ofDecimal? (valueOf 10 (whole ++ places))
        (exponentValue exponent - places.length) with
    | some value => (.float value spelling, spelling.length)
    | none =>
      (.illegal (utf8 "float literal " ++ spelling ++ utf8 " out of range"), spelling.length)

def markedBase? (b : UInt8) : Option Nat :=
  if b = 0x78 || b = 0x58 then some 16
  else if b = 0x62 || b = 0x42 then some 2
  else none

def scanNumber (d : UInt8) (rest : Text) : Lexeme × Nat :=
  match d, rest with
  | 0x30, mark :: tail =>
    match markedBase? mark with
    | some base => scanPattern base mark tail
    | none => scanDecimal (d :: rest)
  | _, _ => scanDecimal (d :: rest)

def scan (b : UInt8) (rest : Text) : Lexeme × Nat :=
  match b with
  | 0x2b => (.plus, 1)
  | 0x2d => (.minus, 1)
  | 0x2a => if rest.head? = some 0x2a then (.power, 2) else (.star, 1)
  | 0x2f => (.slash, 1)
  | 0x25 => (.percent, 1)
  | 0x28 => (.leftParen, 1)
  | 0x29 => (.rightParen, 1)
  | 0x22 => scanString 0x22 rest
  | 0x27 => scanString 0x27 rest
  | _ =>
    if isDigit b then scanNumber b rest
    else if startsWord b then
      let name := b :: rest.takeWhile continuesWord
      (ofWord name, name.length)
    else
      (.illegal (utf8 "unexpected character " ++ quotedChar (Char.ofNat b.toNat)), 1)

end Lexeme

def isLineBlank (b : UInt8) : Bool := b = 0x20 || b = 0x09 || b = 0x0d

/-- The tokens of a text that stands at the given line and column, once `skip` bytes of the token
before it are passed over. -/
def tokensFrom : Nat → Nat → Nat → Text → List Token
  | _, line, column, [] => [⟨.endOfInput, ⟨line, column, 0⟩⟩]
  | skip + 1, line, column, _ :: rest => tokensFrom skip line (column + 1) rest
  | 0, line, column, b :: rest =>
    if b = newline then tokensFrom 0 (line + 1) 1 rest
    else if isLineBlank b then tokensFrom 0 line (column + 1) rest
    else
      let (lexeme, length) := Lexeme.scan b rest
      ⟨lexeme, ⟨line, column, length⟩⟩ :: tokensFrom (length - 1) line (column + 1) rest

def tokenize (source : Text) : List Token := tokensFrom 0 1 1 source

def hasOpenParen (source : Text) : Bool :=
  let depth := (tokenize source).foldl (fun (d : Int) t =>
    match t.lexeme with
    | .leftParen => d + 1
    | .rightParen => d - 1
    | _ => d) 0
  0 < depth

end OnePass
