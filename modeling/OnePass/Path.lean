import OnePass.Text.Basic

/-!
# Paths

Paths as texts whose parts are separated by slashes.
-/

set_option autoImplicit false

namespace OnePass.Path

def separator : UInt8 := 0x2f

def parts (path : Text) : List Text := Text.splitOn separator path

def isRooted (path : Text) : Bool := path.head? = some separator

def here : Text := utf8 "."

def above : Text := utf8 ".."

/-- The parts that are left when those that lead nowhere are taken out, given the ones before in
reverse order. Above the root is the root. -/
def resolve (rooted : Bool) : List Text → List Text → List Text
  | done, [] => done.reverse
  | done, part :: rest =>
    if part = [] ∨ part = here then resolve rooted done rest
    else if part = above then
      match done with
      | last :: before =>
        if last = above then resolve rooted (above :: done) rest else resolve rooted before rest
      | [] => resolve rooted (if rooted then [] else [above]) rest
    else resolve rooted (part :: done) rest

def clean (path : Text) : Text :=
  let kept := Text.join [separator] (resolve (isRooted path) [] (parts path))
  if isRooted path then separator :: kept else if kept = [] then here else kept

def join (folder name : Text) : Text := clean (folder ++ [separator] ++ name)

end OnePass.Path
