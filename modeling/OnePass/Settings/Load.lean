import OnePass.Settings.Basic
import OnePass.Toml.Reader

/-!
# Loading settings

Settings start from defaults. A file may change them, and after it the environment.
-/

set_option autoImplicit false

namespace OnePass.Settings

structure Given where
  arch : Text := []
  codeSize : Text := []
  dataSize : Text := []
  history : Text := []
  verbose : Option Bool := none
  color : Option Bool := none
  deriving DecidableEq, Repr, Inhabited

/-- A key in lower case. The long s counts as an s. -/
def foldKey : Text → Text
  | 0xc5 :: 0xbf :: rest => 0x73 :: foldKey rest
  | c :: rest => Text.foldAscii [c] ++ foldKey rest
  | [] => []

inductive Topic where
  | arch
  | codeSize
  | dataSize
  | history
  | verbose
  | color
  deriving DecidableEq, Repr

def Topic.ofKey? (key : Text) : Option Topic :=
  let key := foldKey key
  if key = utf8 "arch" then some .arch
  else if key = utf8 "code_size" then some .codeSize
  else if key = utf8 "data_size" then some .dataSize
  else if key = utf8 "history" then some .history
  else if key = utf8 "verbose" then some .verbose
  else if key = utf8 "color" then some .color
  else none

def Given.take (g : Given) : Topic → Toml.Node → Except Fault Given
  | .arch, .scalar (.string s) => .ok { g with arch := s }
  | .codeSize, .scalar (.string s) => .ok { g with codeSize := s }
  | .dataSize, .scalar (.string s) => .ok { g with dataSize := s }
  | .history, .scalar (.string s) => .ok { g with history := s }
  | .verbose, .scalar (.bool b) => .ok { g with verbose := some b }
  | .color, .scalar (.bool b) => .ok { g with color := some b }
  | .verbose, n => .error (.wrongKind n .switch)
  | .color, n => .error (.wrongKind n .switch)
  | _, n => .error (.wrongKind n .text)

def Given.takeAll (g : Given) : Toml.Children → Except Fault Given
  | [] => .ok g
  | (key, node) :: rest =>
    match Topic.ofKey? key with
    | none => g.takeAll rest
    | some topic => do (← g.take topic node).takeAll rest

def unknownKey? (d : Toml.Document) : Option Toml.Key :=
  d.keys.find? fun key =>
    match key with
    | [part] => (Topic.ofKey? part).isNone
    | _ => true

def Given.ofText (content : Text) : Except Fault Given :=
  match Toml.parse content with
  | none => .error .malformed
  | some d => do
    let g ← Given.takeAll {} d.root
    match unknownKey? d with
    | some key => .error (.unknownKey (Toml.Key.text key))
    | none => return g

structure Readers where
  bytes : Size.Reader := Size.bytes
  given : Text → Except Fault Given := Given.ofText

def withText (set : Settings → Text → Except Fault Settings) (s : Settings) (value : Text) :
    Except Fault Settings :=
  if value = [] then .ok s else set s value

def applyGiven (r : Readers) (s : Settings) (g : Given) : Except Fault Settings := do
  let s ← withText setArch s g.arch
  let s ← withText (setCodeSizeBy r.bytes) s g.codeSize
  let s ← withText (setDataSizeBy r.bytes) s g.dataSize
  return { s with
    verbose := g.verbose.getD s.verbose, color := g.color.getD s.color,
    history := if g.history = [] then s.history else g.history }

def applyFile (r : Readers) (s : Settings) (path : Text) (file : Except FileFault Bytes) :
    Except Fault Settings :=
  match file with
  | .error fault => .error (.inFile path (.unreadable fault))
  | .ok content =>
    match r.given content >>= applyGiven r s with
    | .error fault => .error (.inFile path fault)
    | .ok s => .ok { s with source := some path }

def withVariable (env : Environment) (name : Text)
    (set : Settings → Text → Except Fault Settings) (s : Settings) : Except Fault Settings :=
  match withText set s (env.get name) with
  | .error fault => .error (.inVariable name fault)
  | .ok s => .ok s

def applyEnvironment (r : Readers) (env : Environment) (s : Settings) : Except Fault Settings := do
  let s ← withVariable env (utf8 "JITEXPR_ARCH") setArch s
  let s ← withVariable env (utf8 "JITEXPR_CODE_SIZE") (setCodeSizeBy r.bytes) s
  let s ← withVariable env (utf8 "JITEXPR_DATA_SIZE") (setDataSizeBy r.bytes) s
  let verbose :=
    if (env.get? (utf8 "JITEXPR_VERBOSE")).isSome then env.enabled (utf8 "JITEXPR_VERBOSE")
    else s.verbose
  let color := s.color && (env.get? (utf8 "NO_COLOR")).isNone
  let history := (env.get? (utf8 "JITEXPR_HISTORY")).getD s.history
  return { s with verbose, color, history }

def defaults (host : Platform) (env : Environment) : Settings :=
  { arch := host.arch, history := Path.join env.home (utf8 ".jitexpr_history") }

def namedFile? (env : Environment) : Option Text := env.get? (utf8 "JITEXPR_CONFIG")

def filePath (env : Environment) : Text := (namedFile? env).getD (utf8 "jitexpr.toml")

/-- Whether the file may be ignored: it is missing, and nobody has named it. -/
def ignorable (env : Environment) (file : Except FileFault Bytes) : Bool :=
  (namedFile? env).isNone &&
    (match file with
      | .error fault => fault.cause = .missing
      | .ok _ => false)

def loadBy (r : Readers) (host : Platform) (env : Environment) (file : Except FileFault Bytes) :
    Except Fault Settings := do
  let s := defaults host env
  let s ← if ignorable env file then .ok s else applyFile r s (filePath env) file
  applyEnvironment r env s

def load : Platform → Environment → Except FileFault Bytes → Except Fault Settings := loadBy {}

end OnePass.Settings
