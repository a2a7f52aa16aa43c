import OnePass.Artifact.Basic
import OnePass.Environment
import OnePass.Folder
import OnePass.Size
import OnePass.Toml.Document

/-!
# Settings

What can be set from a file, from the environment and on the command line.
-/

set_option autoImplicit false

namespace OnePass

structure Settings where
  arch : Arch := .x86
  sizes : RegionSizes := {}
  verbose : Bool := false
  color : Bool := true
  /-- The file that keeps the lines of earlier sessions; none when empty. -/
  history : Text := []
  source : Option Text := none
  deriving DecidableEq, Repr, Inhabited

namespace Settings

inductive Wanted where
  | text
  | switch
  deriving DecidableEq, Repr

def Wanted.name : Wanted → Text
  | .text => utf8 "string"
  | .switch => utf8 "boolean"

def kindName : Toml.Node → Text
  | .scalar (.string _) => utf8 "string"
  | .scalar (.bool _) => utf8 "bool"
  | .scalar .integer => utf8 "int64"
  | .scalar .float => utf8 "float64"
  | .scalar .moment => utf8 "time.Time"
  | .array => utf8 "[]any"
  | .table _ => utf8 "map[string]any"
  | .tables _ => utf8 "[]map[string]any"

inductive Fault where
  | arch (fault : UnsupportedName)
  | codeSize (fault : Size.Fault)
  | dataSize (fault : Size.Fault)
  | unreadable (fault : FileFault)
  | malformed
  /-- A text or a switch is wanted, and the file has another kind of value. -/
  | wrongKind (found : Toml.Node) (wanted : Wanted)
  | unknownKey (key : Text)
  | inFile (path : Text) (fault : Fault)
  | inVariable (name : Text) (fault : Fault)
  deriving Repr

def Fault.message : Fault → Text
  | .arch fault => fault.message
  | .codeSize fault => utf8 "code size: " ++ fault.message
  | .dataSize fault => utf8 "data size: " ++ fault.message
  | .unreadable fault => fault.message
  | .malformed => utf8 "toml: malformed settings"
  | .wrongKind found wanted =>
    utf8 "toml: incompatible types: TOML value has type " ++ kindName found ++
      utf8 "; destination has type " ++ wanted.name
  | .unknownKey key => utf8 "unknown key " ++ Text.quoted key
  | .inFile path fault => utf8 "config " ++ path ++ utf8 ": " ++ fault.message
  | .inVariable name fault => name ++ utf8 ": " ++ fault.message

def setArch (s : Settings) (name : Text) : Except Fault Settings :=
  match Arch.parse name with
  | .ok arch => .ok { s with arch }
  | .error fault => .error (.arch fault)

def setSizeBy (read : Size.Reader) (put : RegionSizes → Nat → RegionSizes)
    (blame : Size.Fault → Fault) (s : Settings) (size : Text) : Except Fault Settings :=
  match Size.parseBy read size with
  | .ok n => .ok { s with sizes := put s.sizes n }
  | .error fault => .error (blame fault)

def setCodeSizeBy (read : Size.Reader) : Settings → Text → Except Fault Settings :=
  setSizeBy read (fun sizes n => { sizes with code := n }) .codeSize

def setDataSizeBy (read : Size.Reader) : Settings → Text → Except Fault Settings :=
  setSizeBy read (fun sizes n => { sizes with data := n }) .dataSize

def setCodeSize : Settings → Text → Except Fault Settings := setCodeSizeBy Size.bytes

def setDataSize : Settings → Text → Except Fault Settings := setDataSizeBy Size.bytes

def boolText (b : Bool) : Text := if b then utf8 "true" else utf8 "false"

def text (s : Settings) : Text :=
  utf8 "arch=" ++ s.arch.name ++ utf8 " code=" ++ Size.text s.sizes.code ++ utf8 " data=" ++
    Size.text s.sizes.data ++ utf8 " verbose=" ++ boolText s.verbose ++ utf8 " color=" ++
    boolText s.color ++ utf8 " (from " ++ s.source.getD (utf8 "defaults") ++ utf8 ")"

end Settings

end OnePass
