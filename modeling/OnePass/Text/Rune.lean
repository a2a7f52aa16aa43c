import OnePass.Text.Basic

/-!
# Code points

A text read as UTF-8 is a sequence of pieces: a code point written well, or a single stray byte
that belongs to no well-formed sequence. The blanks of Unicode can be cut off at both ends.
-/

set_option autoImplicit false

namespace OnePass.Text

inductive Piece where
  | rune (c : Char)
  | stray (b : UInt8)
  deriving DecidableEq, Repr

def replacement : Char := Char.ofNat 0xfffd

def Piece.char : Piece → Char
  | .rune c => c
  | .stray _ => replacement

def isContinuation (b : UInt8) : Bool := 0x80 ≤ b && b ≤ 0xbf

/-- The range the second byte of a sequence is held to, by its first byte; it excludes overlong
forms, surrogates and numbers above the last code point. -/
def secondRange (a : UInt8) : UInt8 × UInt8 :=
  if a = 0xe0 then (0xa0, 0xbf)
  else if a = 0xed then (0x80, 0x9f)
  else if a = 0xf0 then (0x90, 0xbf)
  else if a = 0xf4 then (0x80, 0x8f)
  else (0x80, 0xbf)

def secondFits (a b : UInt8) : Bool := (secondRange a).1 ≤ b && b ≤ (secondRange a).2

def low6 (b : UInt8) : Nat := b.toNat % 64

/-- The piece that starts with byte `a` when `rest` follows it, and how many bytes of `rest`
belong to it. -/
def firstPiece (a : UInt8) (rest : Text) : Piece × Nat :=
  if a < 0x80 then (.rune (Char.ofNat a.toNat), 0)
  else if 0xc2 ≤ a && a ≤ 0xdf then
    match rest with
    | b :: _ =>
      if isContinuation b then (.rune (Char.ofNat (a.toNat % 32 * 64 + low6 b)), 1)
      else (.stray a, 0)
    | [] => (.stray a, 0)
  else if 0xe0 ≤ a && a ≤ 0xef then
    match rest with
    | b :: c :: _ =>
      if secondFits a b && isContinuation c then
        (.rune (Char.ofNat ((a.toNat % 16 * 64 + low6 b) * 64 + low6 c)), 2)
      else (.stray a, 0)
    | _ => (.stray a, 0)
  else if 0xf0 ≤ a && a ≤ 0xf4 then
    match rest with
    | b :: c :: d :: _ =>
      if secondFits a b && isContinuation c && isContinuation d then
        (.rune (Char.ofNat (((a.toNat % 8 * 64 + low6 b) * 64 + low6 c) * 64 + low6 d)), 3)
      else (.stray a, 0)
    | _ => (.stray a, 0)
  else (.stray a, 0)

/-- The pieces of a text once `skip` bytes of the piece before it are passed over. -/
def piecesAfter : Nat → Text → List Piece
  | _, [] => []
  | skip + 1, _ :: rest => piecesAfter skip rest
  | 0, a :: rest => (firstPiece a rest).1 :: piecesAfter (firstPiece a rest).2 rest

def pieces (s : Text) : List Piece := piecesAfter 0 s

def isValidUtf8 (s : Text) : Bool :=
  (pieces s).all fun
    | .rune _ => true
    | .stray _ => false

def runes (s : Text) : List Char := (pieces s).map Piece.char

def encodeChar (c : Char) : Text := String.utf8EncodeChar c

def ofRunes (cs : List Char) : Text := cs.flatMap encodeChar

def Piece.bytes : Piece → Text
  | .rune c => encodeChar c
  | .stray b => [b]

def isBlankChar (c : Char) : Bool :=
  let n := c.toNat
  (0x09 ≤ n && n ≤ 0x0d) || n = 0x20 || n = 0x85 || n = 0xa0 || n = 0x1680 ||
    (0x2000 ≤ n && n ≤ 0x200a) || n = 0x2028 || n = 0x2029 || n = 0x202f || n = 0x205f ||
    n = 0x3000

def Piece.isBlank : Piece → Bool
  | .rune c => isBlankChar c
  | .stray _ => false

def trim (s : Text) : Text :=
  let inner := (((pieces s).dropWhile Piece.isBlank).reverse.dropWhile Piece.isBlank).reverse
  inner.flatMap Piece.bytes

end OnePass.Text
