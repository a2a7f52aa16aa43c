import OnePass.Artifact.Basic
import OnePass.Cbor.Reader
import OnePass.Text.Rune

/-!
# Artifacts in CBOR

An artifact is a map from field names to values. Writing is canonical: keys are ordered by length
and then by their bytes, so equal artifacts have equal bytes. Reading takes any order, passes over
keys that name no field, and takes the first value given for a field.
-/

set_option autoImplicit false

namespace OnePass

open Cbor

namespace Artifact

/-- The order of keys: shorter ones first, equally long ones by their bytes. -/
def keyBefore (a b : Text) : Bool :=
  a.length < b.length || (a.length = b.length && !(b < a))

def textItem (s : Text) : Item := .text [s]

def bytesItem : Option Bytes → Item
  | some b => .bytes b
  | none => .null

def symbolsItem : Option (List (Text × UInt64)) → Item
  | some symbols =>
    .map ((symbols.mergeSort fun a b => keyBefore a.1 b.1).map fun (name, address) =>
      (textItem name, .unsigned address.toNat))
  | none => .null

def toItem (a : Artifact) : Item :=
  .map
    [(textItem (utf8 "arch"), textItem a.arch),
      (textItem (utf8 "code"), bytesItem a.code),
      (textItem (utf8 "data"), bytesItem a.data),
      (textItem (utf8 "source"), textItem a.source),
      (textItem (utf8 "symbols"), symbolsItem a.symbols),
      (textItem (utf8 "code_base"), .unsigned a.codeBase.toNat),
      (textItem (utf8 "data_base"), .unsigned a.dataBase.toNat),
      (textItem (utf8 "result_type"), textItem a.resultType)]

def encode (a : Artifact) : Bytes := a.toItem.encode

def selfDescribed : Nat := 55799

/-- Whether an item can be what a tag of the common ones is about: a date as a text, a date as a
number, a large number as bytes. -/
def suitsTag (number : Nat) : Item → Bool
  | .text _ => number ≠ 1 && number ≠ 2 && number ≠ 3
  | .bytes _ => number ≠ 0 && number ≠ 1
  | .unsigned _ => number ≠ 0 && number ≠ 2 && number ≠ 3
  | .negative _ => number ≠ 0 && number ≠ 2 && number ≠ 3
  | .float _ => number ≠ 0 && number ≠ 2 && number ≠ 3
  | _ => 3 < number

/-- What an item is under its tags. Large numbers keep theirs. -/
def untagged : Item → Option Item
  | .tag number content =>
    if number = selfDescribed then untagged content
    else if !suitsTag number content then none
    else if number = 2 ∨ number = 3 then some (.tag number content)
    else untagged content
  | i => some i

def isNull : Item → Bool
  | .simple n => n = 22 || n = 23
  | _ => false

abbrev Reading (T : Type) := Item → Option (Option T)

def readText : Reading Text := fun i => do
  match ← untagged i with
  | .text chunks => if chunks.all Text.isValidUtf8 then return some chunks.flatten else none
  | i => if isNull i then return none else none

/-- An unsigned number below `bound`; simple values other than the named ones count as numbers. -/
def readUnsigned (bound : Nat) : Reading Nat := fun i => do
  match ← untagged i with
  | .unsigned n => if n < bound then return some n else none
  | .simple n =>
    if n = 22 ∨ n = 23 then return none
    else if n = 20 ∨ n = 21 then none
    else if n < bound then return some n else none
  | .tag 2 (.bytes b) => if ofBigEndian b < bound then return some (ofBigEndian b) else none
  | _ => none

def readWord : Reading UInt64 := fun i =>
  (readUnsigned 0x10000000000000000 i).map fun n => n.map UInt64.ofNat

def readByteString : Reading Bytes := fun i => do
  match ← untagged i with
  | .bytes b => return some b
  | .tag _ (.bytes b) => return some b
  | .array items =>
    let bs ← items.mapM (readUnsigned 256)
    return some (bs.map fun n => UInt8.ofNat (n.getD 0))
  | i => if isNull i then return none else none

def setSymbol (name : Text) (address : UInt64) : List (Text × UInt64) → List (Text × UInt64)
  | [] => [(name, address)]
  | (n, a) :: rest =>
    if n = name then (name, address) :: rest else (n, a) :: setSymbol name address rest

/-- The symbols of a map; a null stands for what stood in its place in the pair before. -/
def readPairs : Text → UInt64 → List (Text × UInt64) → List (Item × Item) →
    Option (List (Text × UInt64))
  | _, _, symbols, [] => some symbols
  | name, address, symbols, (k, v) :: rest => do
    let name := (← readText k).getD name
    let address := (← readWord v).getD address
    readPairs name address (setSymbol name address symbols) rest

def readSymbols : Reading (List (Text × UInt64)) := fun i => do
  match ← untagged i with
  | .map pairs => return some (← readPairs [] 0 [] pairs)
  | i => if isNull i then return none else none

inductive Field where
  | arch
  | resultType
  | source
  | code
  | data
  | codeBase
  | dataBase
  | symbols
  deriving DecidableEq, Repr

namespace Field

def name : Field → Text
  | .arch => utf8 "arch"
  | .resultType => utf8 "result_type"
  | .source => utf8 "source"
  | .code => utf8 "code"
  | .data => utf8 "data"
  | .codeBase => utf8 "code_base"
  | .dataBase => utf8 "data_base"
  | .symbols => utf8 "symbols"

def all : List Field :=
  [.arch, .resultType, .source, .code, .data, .codeBase, .dataBase, .symbols]

/-- The field a key names among those not yet given: by its exact name before any other case. -/
def ofKey? (key : Text) (given : List Field) : Option Field :=
  let missing := all.filter fun f => !given.contains f
  missing.find? (fun f => f.name = key) <|>
    missing.find? (fun f => f.name = Text.foldAscii key)

end Field

def setField (a : Artifact) (i : Item) : Field → Option Artifact
  | .arch => return { a with arch := (← readText i).getD a.arch }
  | .resultType => return { a with resultType := (← readText i).getD a.resultType }
  | .source => return { a with source := (← readText i).getD a.source }
  | .code => return { a with code := ← readByteString i }
  | .data => return { a with data := ← readByteString i }
  | .codeBase => return { a with codeBase := (← readWord i).getD a.codeBase }
  | .dataBase => return { a with dataBase := (← readWord i).getD a.dataBase }
  | .symbols => return { a with symbols := ← readSymbols i }

def keyField? (given : List Field) : Item → Option (Option Field)
  | .text chunks =>
    if chunks.all Text.isValidUtf8 then some (Field.ofKey? chunks.flatten given) else none
  | .unsigned _ => some none
  | .negative n => if n < 0x8000000000000000 then some none else none
  | _ => none

def readFields (a : Artifact) (given : List Field) : List (Item × Item) → Option Artifact
  | [] => some a
  | (k, v) :: rest => do
    match ← keyField? given k with
    | none => readFields a given rest
    | some f => readFields (← a.setField v f) (f :: given) rest

def ofItem? (i : Item) : Option Artifact := do
  match ← untagged i with
  | .map pairs => readFields {} [] pairs
  | i => if isNull i then return {} else none

def decode (s : Bytes) : Option Artifact := (Cbor.decode s).bind ofItem?

end Artifact

end OnePass
