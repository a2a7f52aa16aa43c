import OnePass.Text.Numeral
import OnePass.Text.Printable
import OnePass.Text.Rune

/-!
# Quoted text

A text between quotes, in which the quote, the backslash and everything that is not printable is
written as an escape: the usual letters for the usual controls, two hexadecimal digits for other
ASCII controls and for stray bytes, four or eight for code points.
-/

set_option autoImplicit false

namespace OnePass.Text

def controlLetter? (n : Nat) : Option UInt8 :=
  match n with
  | 0x07 => some 0x61
  | 0x08 => some 0x62
  | 0x0c => some 0x66
  | 0x0a => some 0x6e
  | 0x0d => some 0x72
  | 0x09 => some 0x74
  | 0x0b => some 0x76
  | _ => none

def escapeChar (quote : UInt8) (c : Char) : Text :=
  let n := c.toNat
  if n = quote.toNat || n = 0x5c then 0x5c :: encodeChar c
  else if isPrintable c then encodeChar c
  else
    match controlLetter? n with
    | some letter => [0x5c, letter]
    | none =>
      if n < 0x20 || n = 0x7f then utf8 "\\x" ++ hexPadded 2 n
      else if n < 0x10000 then utf8 "\\u" ++ hexPadded 4 n
      else utf8 "\\U" ++ hexPadded 8 n

def escapePiece (quote : UInt8) : Piece → Text
  | .rune c => escapeChar quote c
  | .stray b => utf8 "\\x" ++ hexPadded 2 b.toNat

def quoted (s : Text) : Text :=
  0x22 :: (pieces s).flatMap (escapePiece 0x22) ++ [0x22]

def quotedChar (c : Char) : Text := 0x27 :: escapeChar 0x27 c ++ [0x27]

end OnePass.Text
