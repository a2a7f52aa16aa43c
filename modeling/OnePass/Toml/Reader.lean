import OnePass.Toml.Document
import OnePass.Toml.Words

/-!
# Reading TOML

A whole text is read line by line into a document. A text that breaks any rule is no document.
-/

set_option autoImplicit false

namespace OnePass.Toml

def skipBlanks (s : Text) : Text := s.dropWhile isBlank

def skipLayout : Bool → Text → Text
  | _, [] => []
  | true, c :: rest => skipLayout (c ≠ 0x0a) rest
  | false, c :: rest =>
    if isBlank c || isNewline c then skipLayout false rest
    else if c = 0x23 then skipLayout true rest
    else c :: rest

def keyPart : Reader Text := fun s =>
  match s with
  | [] => none
  | c :: _ =>
    if c = quote ∨ c = apostrophe then quotedLine s
    else
      let bare := s.takeWhile Key.isBareByte
      if bare = [] then none else some (bare, s.drop bare.length)

def keyParts : Nat → Reader Key
  | 0, _ => none
  | fuel + 1, s => do
    let (part, s) ← keyPart (skipBlanks s)
    match skipBlanks s with
    | 0x2e :: rest =>
      let (parts, rest) ← keyParts fuel rest
      return (part :: parts, rest)
    | rest => return ([part], rest)

def key : Reader Key := fun s => keyParts (s.length + 1) s

/-- A number, a date or a boolean. A date may have its time behind a blank. -/
def word : Reader Scalar := fun s =>
  let w := s.takeWhile isWordByte
  let rest := s.drop w.length
  if w = utf8 "true" then some (.bool true, rest)
  else if w = utf8 "false" then some (.bool false, rest)
  else if isDate w then
    match rest with
    | 0x20 :: d :: tail =>
      if Text.isDigit d then
        let time := (d :: tail).takeWhile isWordByte
        if isZonedTime time then some (.moment, (d :: tail).drop time.length) else none
      else some (.moment, rest)
    | _ => some (.moment, rest)
  else if isInteger w then some (.integer, rest)
  else if isFloat w then some (.float, rest)
  else if isMoment w then some (.moment, rest)
  else none

def elements {α : Type} (close : UInt8) (element : Reader α) : Nat → Reader (List α)
  | 0, _ => none
  | fuel + 1, s =>
    match skipLayout false s with
    | [] => none
    | c :: rest =>
      if c = close then some ([], rest)
      else do
        let (x, s) ← element (c :: rest)
        match skipLayout false s with
        | [] => none
        | d :: rest =>
          if d = close then some ([x], rest)
          else if d = 0x2c then do
            let (xs, rest) ← elements close element fuel rest
            return (x :: xs, rest)
          else none

def pair (value : Reader Value) : Reader (Key × Value) := fun s => do
  let (k, s) ← key s
  let s ← Text.after? (utf8 "=") s
  let (v, s) ← value (skipBlanks s)
  return ((k, v), s)

def value : Nat → Reader Value
  | 0, _ => none
  | depth + 1, s =>
    match s with
    | [] => none
    | c :: rest =>
      if c = quote ∨ c = apostrophe then (string s).map fun (v, s) => (.scalar (.string v), s)
      else if c = 0x5b then
        (elements 0x5d (value depth) (rest.length + 1) rest).map fun (vs, s) => (.array vs, s)
      else if c = 0x7b then
        (elements 0x7d (pair (value depth)) (rest.length + 1) rest).map fun (ps, s) =>
          (.table ps, s)
      else (word s).map fun (x, s) => (.scalar x, s)

def endOfLine? (s : Text) : Option Text :=
  match skipBlanks s with
  | [] => some []
  | 0x0a :: rest => some rest
  | 0x0d :: 0x0a :: rest => some rest
  | 0x23 :: rest => some ((rest.dropWhile (· ≠ 0x0a)).drop 1)
  | _ => none

def statement : Reader Statement := fun s =>
  match s with
  | 0x5b :: 0x5b :: rest => do
    let (k, s) ← key rest
    let s ← Text.after? (utf8 "]]") s
    return (.element k, s)
  | 0x5b :: rest => do
    let (k, s) ← key rest
    let s ← Text.after? (utf8 "]") s
    return (.table k, s)
  | s => do
    let (k, s) ← key s
    let s ← Text.after? (utf8 "=") s
    let (v, s) ← value (s.length + 1) (skipBlanks s)
    return (.value k v, s)

def statements : Nat → Text → Option (List Statement)
  | 0, _ => none
  | fuel + 1, s =>
    match skipLayout false s with
    | [] => some []
    | s => do
      let (st, s) ← statement s
      let s ← endOfLine? s
      return st :: (← statements fuel s)

def isPlain : Text → Bool
  | [] => true
  | 0x0d :: rest => rest.head? = some 0x0a && isPlain rest
  | c :: rest => ((0x20 ≤ c && c ≠ 0x7f) || c = 0x09 || c = 0x0a) && isPlain rest

def withoutMark : Text → Text
  | 0xff :: 0xfe :: rest => rest
  | 0xfe :: 0xff :: rest => rest
  | 0xef :: 0xbb :: 0xbf :: rest => rest
  | s => s

def parse (s : Text) : Option Document := do
  let s := withoutMark s
  if Text.isValidUtf8 s && isPlain s then
    Document.addAll {} [] (← statements (s.length + 1) s)
  else none

end OnePass.Toml
