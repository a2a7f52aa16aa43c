import OnePass.Path

/-!
# Folders

The files that paths can lead to, and why reading or writing one fails.
-/

set_option autoImplicit false

namespace OnePass

inductive PathFault where
  | missing
  | notFolder
  | isFolder
  | nameTooLong
  | invalid
  | other (reason : Text)
  deriving DecidableEq, Repr

def PathFault.message : PathFault → Text
  | .missing => utf8 "no such file or directory"
  | .notFolder => utf8 "not a directory"
  | .isFolder => utf8 "is a directory"
  | .nameTooLong => utf8 "file name too long"
  | .invalid => utf8 "invalid argument"
  | .other reason => reason

inductive FileAction where
  | find
  | read
  | create
  deriving DecidableEq, Repr

def FileAction.name : FileAction → Text
  | .find => utf8 "stat"
  | .read => utf8 "read"
  | .create => utf8 "open"

structure FileFault where
  action : FileAction
  path : Text
  cause : PathFault
  deriving DecidableEq, Repr

def FileFault.message (f : FileFault) : Text :=
  f.action.name ++ utf8 " " ++ f.path ++ utf8 ": " ++ f.cause.message

abbrev Folder := List (Text × Bytes)

namespace Folder

inductive Place where
  | folder
  | file (name : Text)
  /-- No file, but one could be made. -/
  | free (name : Text)
  deriving DecidableEq, Repr

def nameOf (steps : List Text) : Text := Text.join [Path.separator] steps

def get? (d : Folder) (name : Text) : Option Bytes := (d.find? fun f => f.1 = name).map Prod.snd

def hasFolder (d : Folder) (steps : List Text) : Bool :=
  d.any fun f => (nameOf steps ++ [Path.separator]).isPrefixOf f.1

def nameLimit : Nat := 255

def walk (d : Folder) : List Text → List Text → Except PathFault Place
  | _, [] => .ok .folder
  | steps, part :: rest =>
    if part = [] ∨ part = Path.here then walk d steps rest
    else if part = Path.above then
      if steps = [] then .error .missing else walk d steps.dropLast rest
    else if nameLimit < part.length then .error .nameTooLong
    else if d.hasFolder (steps ++ [part]) then walk d (steps ++ [part]) rest
    else if (d.get? (nameOf (steps ++ [part]))).isSome then
      if rest = [] then .ok (.file (nameOf (steps ++ [part]))) else .error .notFolder
    else if rest = [] then .ok (.free (nameOf (steps ++ [part])))
    else .error .missing

def place (d : Folder) (path : Text) : Except PathFault Place :=
  if 0 ∈ path then .error .invalid
  else if path = [] ∨ Path.isRooted path then .error .missing
  else d.walk [] (Path.parts path)

def read (d : Folder) (path : Text) : Except FileFault Bytes :=
  match d.place path with
  | .error cause => .error ⟨.find, path, cause⟩
  | .ok .folder => .error ⟨.read, path, .isFolder⟩
  | .ok (.free _) => .error ⟨.find, path, .missing⟩
  | .ok (.file name) => .ok ((d.get? name).getD [])

def put (name : Text) (content : Bytes) : Folder → Folder
  | [] => [(name, content)]
  | f :: rest => if f.1 = name then (name, content) :: rest else f :: put name content rest

def save (d : Folder) (path : Text) (content : Bytes) : Except FileFault Folder :=
  match d.place path with
  | .error cause => .error ⟨.create, path, cause⟩
  | .ok .folder => .error ⟨.create, path, .isFolder⟩
  | .ok (.free name) => .ok (d.put name content)
  | .ok (.file name) => .ok (d.put name content)

end Folder

end OnePass
