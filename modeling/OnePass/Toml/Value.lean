import OnePass.Text.Numeral

/-!
# TOML keys, values and statements

What the lines of a document say: a line opens a table, opens the next element of an array of
tables, or gives a key a value.
-/

set_option autoImplicit false

namespace OnePass.Toml

abbrev Key := List Text

namespace Key

def isBareByte (c : UInt8) : Bool :=
  Text.isDigit c || (0x41 ≤ c && c ≤ 0x5a) || (0x61 ≤ c && c ≤ 0x7a) || c = 0x5f || c = 0x2d

def escapedByte (c : UInt8) : Text :=
  match c with
  | 0x22 => utf8 "\\\""
  | 0x5c => utf8 "\\\\"
  | 0x08 => utf8 "\\b"
  | 0x09 => utf8 "\\t"
  | 0x0a => utf8 "\\n"
  | 0x0c => utf8 "\\f"
  | 0x0d => utf8 "\\r"
  | _ => if c < 0x20 || c = 0x7f then utf8 "\\u" ++ Text.hexPadded 4 c.toNat else [c]

def partText (part : Text) : Text :=
  if part ≠ [] ∧ part.all isBareByte then part
  else utf8 "\"" ++ part.flatMap escapedByte ++ utf8 "\""

def text (k : Key) : Text := Text.join (utf8 ".") (k.map partText)

def table (k : Key) : Key := k.dropLast

def name (k : Key) : Text := k.getLastD []

end Key

/-- A value without parts; of numbers, dates and times only the presence is known. -/
inductive Scalar where
  | string (s : Text)
  | bool (b : Bool)
  | integer
  | float
  | moment
  deriving DecidableEq, Repr, Inhabited

inductive Value where
  | scalar (x : Scalar)
  | array (elements : List Value)
  | table (pairs : List (Key × Value))
  deriving Repr, Inhabited

def Value.isArray : Value → Bool
  | .array _ => true
  | _ => false

inductive Statement where
  | table (k : Key)
  | element (k : Key)
  | value (k : Key) (v : Value)
  deriving Repr

end OnePass.Toml
