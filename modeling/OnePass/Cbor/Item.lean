import OnePass.Text.Basic

/-!
# CBOR items

The data items of CBOR and their canonical bytes: every head is as short as it can be and every
length is given in advance.
-/

set_option autoImplicit false

namespace OnePass.Cbor

/-- A data item. A text keeps the chunks it was written in, one when it was written whole; simple
values are the numbered ones, among them false, true, null and undefined. -/
inductive Item where
  | unsigned (n : Nat)
  | negative (n : Nat)
  | bytes (b : Bytes)
  | text (chunks : List Text)
  | array (items : List Item)
  | map (pairs : List (Item × Item))
  | tag (number : Nat) (content : Item)
  | simple (n : Nat)
  | float (payload : Bytes)
  deriving Repr, Inhabited

namespace Item

def null : Item := .simple 22

def undefined : Item := .simple 23

end Item

def bigEndian (n v : Nat) : Bytes :=
  (List.range n).map fun i => UInt8.ofNat (v / Nat.pow 256 (n - 1 - i))

def ofBigEndian (bs : Bytes) : Nat := bs.foldl (fun v b => v * 256 + b.toNat) 0

/-- A head: the major type and the number it carries, in the shortest form. -/
def head (major : UInt8) (n : Nat) : Bytes :=
  let lead (info : UInt8) : UInt8 := major * 32 + info
  if n < 24 then [lead (UInt8.ofNat n)]
  else if n < 0x100 then lead 24 :: bigEndian 1 n
  else if n < 0x10000 then lead 25 :: bigEndian 2 n
  else if n < 0x100000000 then lead 26 :: bigEndian 4 n
  else lead 27 :: bigEndian 8 n

mutual

def Item.encode : Item → Bytes
  | .unsigned n => head 0 n
  | .negative n => head 1 n
  | .bytes b => head 2 b.length ++ b
  | .text chunks => head 3 chunks.flatten.length ++ chunks.flatten
  | .array items => head 4 items.length ++ encodeAll items
  | .map pairs => head 5 pairs.length ++ encodePairs pairs
  | .tag number content => head 6 number ++ content.encode
  | .simple n => head 7 n
  | .float payload =>
    (if payload.length = 2 then 0xf9 else if payload.length = 4 then 0xfa else 0xfb) :: payload

def encodeAll : List Item → Bytes
  | [] => []
  | i :: rest => i.encode ++ encodeAll rest

def encodePairs : List (Item × Item) → Bytes
  | [] => []
  | (k, v) :: rest => k.encode ++ v.encode ++ encodePairs rest

end

end OnePass.Cbor
