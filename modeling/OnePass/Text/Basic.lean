/-!
# Texts

A text is a byte string. Sources, string values, names and messages are all texts: columns and
lengths count bytes, and a text need not be valid UTF-8.
-/

set_option autoImplicit false

namespace OnePass

abbrev Bytes := List UInt8

abbrev Text := Bytes

def utf8 (s : String) : Text := s.toUTF8.data.toList

namespace Text

def newline : UInt8 := 0x0a

def fill (n : Nat) (b : UInt8) : Text := List.replicate n b

def splitOn (sep : UInt8) : Text → List Text
  | [] => [[]]
  | b :: rest =>
    if b = sep then [] :: splitOn sep rest
    else
      match splitOn sep rest with
      | [] => [[b]]
      | part :: parts => (b :: part) :: parts

def lines (s : Text) : List Text := splitOn newline s

def join (sep : Text) (parts : List Text) : Text := sep.intercalate parts

def foldAscii (s : Text) : Text :=
  s.map fun b => if 0x41 ≤ b && b ≤ 0x5a then b + 0x20 else b

def after? (lead : Text) (s : Text) : Option Text :=
  if lead.isPrefixOf s then some (s.drop lead.length) else none

/-- The text before and after the first byte equal to `sep`; the second part is empty when the
byte does not occur. -/
def cut (sep : UInt8) (s : Text) : Text × Text :=
  (s.takeWhile (· != sep), (s.dropWhile (· != sep)).drop 1)

end Text

end OnePass
