import OnePass.Cbor.Item

/-!
# Reading CBOR

A text of exactly one well-formed item is read, in any head width and with definite or indefinite
lengths. Arrays, maps and chains of tags nest to a limit.
-/

set_option autoImplicit false

namespace OnePass.Cbor

structure Head where
  major : Nat
  info : Nat
  value : Nat
  deriving DecidableEq, Repr

def readNumber (n : Nat) (s : Bytes) : Option (Nat × Bytes) :=
  if n ≤ s.length then some (ofBigEndian (s.take n), s.drop n) else none

/-- The next head. An open length is only there for strings, arrays and maps; a simple value in two
bytes must need them. -/
def readHead : Bytes → Option (Head × Bytes)
  | [] => none
  | b :: rest =>
    let major := b.toNat / 32
    let info := b.toNat % 32
    if info < 24 then some (⟨major, info, info⟩, rest)
    else if info ≤ 27 then do
      let (value, rest) ← readNumber (Nat.pow 2 (info - 24)) rest
      if major = 7 ∧ info = 24 ∧ value < 32 then none
      else some (⟨major, info, value⟩, rest)
    else if info = 31 ∧ 2 ≤ major ∧ major ≤ 5 then some (⟨major, info, info⟩, rest)
    else none

def breakByte : UInt8 := 0xff

def readBytes (n : Nat) (s : Bytes) : Option (Bytes × Bytes) :=
  if n ≤ s.length then some (s.take n, s.drop n) else none

/-- The chunks of a string of open length, up to its end; each is a string of the same major type
with a length of its own. -/
def readChunks (major : Nat) : Nat → Bytes → Option (List Bytes × Bytes)
  | 0, _ => none
  | _ + 1, [] => none
  | fuel + 1, b :: rest =>
    if b = breakByte then some ([], rest)
    else do
      let (h, s) ← readHead (b :: rest)
      if h.major ≠ major ∨ h.info = 31 then none
      else
        let (chunk, s) ← readBytes h.value s
        let (chunks, s) ← readChunks major fuel s
        return (chunk :: chunks, s)

def readString (h : Head) (s : Bytes) : Option (List Bytes × Bytes) :=
  if h.info = 31 then readChunks h.major (s.length + 1) s
  else do
    let (chunk, s) ← readBytes h.value s
    return ([chunk], s)

def readMany (read : Bytes → Option (Item × Bytes)) : Nat → Bytes → Option (List Item × Bytes)
  | 0, s => some ([], s)
  | n + 1, s => do
    let (i, s) ← read s
    let (is, s) ← readMany read n s
    return (i :: is, s)

def readUntilBreak (read : Bytes → Option (Item × Bytes)) : Nat → Bytes → Option (List Item × Bytes)
  | 0, _ => none
  | _ + 1, [] => none
  | fuel + 1, b :: rest =>
    if b = breakByte then some ([], rest)
    else do
      let (i, s) ← read (b :: rest)
      let (is, s) ← readUntilBreak read fuel s
      return (i :: is, s)

def maxElements : Nat := 131072

def readElements (read : Bytes → Option (Item × Bytes)) (h : Head) (width : Nat) (s : Bytes) :
    Option (List Item × Bytes) := do
  if h.info = 31 then
    let (is, s) ← readUntilBreak read (s.length + 1) s
    if is.length % width = 0 ∧ is.length / width ≤ maxElements then return (is, s) else none
  else if h.value ≤ maxElements then readMany read (width * h.value) s
  else none

def pairUp : List Item → List (Item × Item)
  | k :: v :: rest => (k, v) :: pairUp rest
  | _ => []

def readTags : Nat → Bytes → Option (List Nat × Bytes)
  | 0, _ => none
  | fuel + 1, s =>
    match s with
    | [] => none
    | b :: _ =>
      if b.toNat / 32 = 6 then do
        let (h, s) ← readHead s
        let (numbers, s) ← readTags fuel s
        return (h.value :: numbers, s)
      else some ([], s)

/-- How deep items may nest. A tag counts when another tag precedes it. -/
def maxLevels : Nat := 32

/-- The next item. Arrays, maps and tags on tags take one of the levels that are left. -/
def readItem : Nat → Nat → Bytes → Option (Item × Bytes)
  | 0, _, _ => none
  | fuel + 1, levels, s => do
    let (tags, s) ← readTags (s.length + 1) s
    if levels + 1 < tags.length then none
    else
      let levels := levels - (tags.length - 1)
      let (h, s) ← readHead s
      let (content, s) ←
        match h.major with
        | 0 => some (Item.unsigned h.value, s)
        | 1 => some (Item.negative h.value, s)
        | 2 => (readString h s).map fun (chunks, s) => (Item.bytes chunks.flatten, s)
        | 3 => (readString h s).map fun (chunks, s) => (Item.text chunks, s)
        | 4 =>
          if levels = 0 then none
          else
            (readElements (readItem fuel (levels - 1)) h 1 s).map fun (is, s) => (Item.array is, s)
        | 5 =>
          if levels = 0 then none
          else
            (readElements (readItem fuel (levels - 1)) h 2 s).map fun (is, s) =>
              (Item.map (pairUp is), s)
        | _ =>
          if h.info ≤ 24 then some (Item.simple h.value, s)
          else some (Item.float (bigEndian (Nat.pow 2 (h.info - 24)) h.value), s)
      return (tags.foldr Item.tag content, s)

def decode (s : Bytes) : Option Item :=
  match readItem (maxLevels + 1) maxLevels s with
  | some (i, []) => some i
  | _ => none

end OnePass.Cbor
