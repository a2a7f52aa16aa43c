import OnePass.Text.Quoted

/-!
# Flags

Options at the start of a command line: `-name value`, `-name=value`, and `-name` alone for
switches. Two hyphens do as well as one. The first argument that is no flag, or `--`, ends them.
-/

set_option autoImplicit false

namespace OnePass

inductive FlagKind where
  | text (default : Text)
  | switch
  deriving DecidableEq, Repr

structure Flag where
  name : Text
  kind : FlagKind
  help : Text
  deriving DecidableEq, Repr

structure FlagSet where
  command : Text
  flags : List Flag
  deriving DecidableEq, Repr

inductive FlagFault where
  | helpRequested
  | malformed (argument : Text)
  | undefined (name : Text)
  | noArgument (name : Text)
  | notBoolean (name value : Text)
  deriving DecidableEq, Repr

def FlagFault.message : FlagFault → Text
  | .helpRequested => utf8 "flag: help requested"
  | .malformed argument => utf8 "bad flag syntax: " ++ argument
  | .undefined name => utf8 "flag provided but not defined: -" ++ name
  | .noArgument name => utf8 "flag needs an argument: -" ++ name
  | .notBoolean name value =>
    utf8 "invalid boolean value " ++ Text.quoted value ++ utf8 " for -" ++ name ++
      utf8 ": parse error"

structure ParsedFlags where
  texts : List (Text × Text) := []
  switches : List (Text × Bool) := []
  rest : List Text := []
  deriving DecidableEq, Repr

namespace ParsedFlags

def text? (p : ParsedFlags) (name : Text) : Option Text :=
  (p.texts.find? fun g => g.1 = name).map Prod.snd

def switch? (p : ParsedFlags) (name : Text) : Option Bool :=
  (p.switches.find? fun g => g.1 = name).map Prod.snd

def isOn (p : ParsedFlags) (name : Text) : Bool := (p.switch? name).getD false

end ParsedFlags

namespace FlagSet

def find? (fs : FlagSet) (name : Text) : Option Flag := fs.flags.find? fun f => f.name = name

def explain (f : Flag) : Text :=
  let (word, default) : Text × Text :=
    match f.kind with
    | .text [] => (utf8 " string", [])
    | .text d => (utf8 " string", utf8 " (default " ++ Text.quoted d ++ utf8 ")")
    | .switch => ([], [])
  let head := utf8 "  -" ++ f.name ++ word
  let gap := if head.length ≤ 4 then utf8 "\t" else utf8 "\n    \t"
  head ++ gap ++ f.help ++ default ++ utf8 "\n"

def usage (fs : FlagSet) : Text :=
  utf8 "Usage of " ++ fs.command ++ utf8 ":\n" ++ fs.flags.flatMap explain

def complaint (fs : FlagSet) (fault : FlagFault) : Text :=
  (if fault = .helpRequested then [] else fault.message ++ utf8 "\n") ++ fs.usage

inductive Argument where
  | plain
  | last
  | malformed
  | flag (name : Text) (value : Option Text)
  deriving DecidableEq, Repr

/-- The name of a flag and the value after the first equals sign, which is never at the start. -/
def nameAndValue (s : Text) : Text × Option Text :=
  match s with
  | [] => ([], none)
  | c :: rest =>
    let name := rest.takeWhile (· ≠ 0x3d)
    match rest.drop name.length with
    | [] => (c :: name, none)
    | _ :: value => (c :: name, some value)

def flagOf (body : Text) : Argument :=
  match body with
  | [] => .malformed
  | c :: _ =>
    if c = 0x2d ∨ c = 0x3d then .malformed
    else .flag (nameAndValue body).1 (nameAndValue body).2

def classify (argument : Text) : Argument :=
  match argument with
  | [0x2d, 0x2d] => .last
  | 0x2d :: 0x2d :: body => flagOf body
  | [0x2d] => .plain
  | 0x2d :: body => flagOf body
  | _ => .plain

def bool? (s : Text) : Option Bool :=
  if (["1", "t", "T", "TRUE", "true", "True"].map utf8).contains s then some true
  else if (["0", "f", "F", "FALSE", "false", "False"].map utf8).contains s then some false
  else none

def parseFrom (fs : FlagSet) : ParsedFlags → List Text → Except FlagFault ParsedFlags
  | p, [] => .ok { p with rest := [] }
  | p, argument :: arguments =>
    match classify argument with
    | .plain => .ok { p with rest := argument :: arguments }
    | .last => .ok { p with rest := arguments }
    | .malformed => .error (.malformed argument)
    | .flag name value =>
      match (fs.find? name).map Flag.kind with
      | none =>
        if name = utf8 "help" ∨ name = utf8 "h" then .error .helpRequested
        else .error (.undefined name)
      | some .switch =>
        match value with
        | none => fs.parseFrom { p with switches := (name, true) :: p.switches } arguments
        | some v =>
          match bool? v with
          | none => .error (.notBoolean name v)
          | some b => fs.parseFrom { p with switches := (name, b) :: p.switches } arguments
      | some (.text _) =>
        match value with
        | some v => fs.parseFrom { p with texts := (name, v) :: p.texts } arguments
        | none =>
          match arguments with
          | [] => .error (.noArgument name)
          | v :: arguments => fs.parseFrom { p with texts := (name, v) :: p.texts } arguments

def parse (fs : FlagSet) (arguments : List Text) : Except FlagFault ParsedFlags :=
  fs.parseFrom {} arguments

end FlagSet

end OnePass
