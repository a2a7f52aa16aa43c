import OnePass.Text.Rune
import OnePass.Text.Lower

/-!
# Platforms

The architectures code is generated for and the operating systems it may run on, by all their
names.
-/

set_option autoImplicit false

namespace OnePass

inductive Arch where
  | unknown
  | x86
  | arm64
  | other (code : Int)
  deriving DecidableEq, Repr, Inhabited

inductive UnsupportedName where
  | arch (name : Text)
  | os (name : Text)
  deriving DecidableEq, Repr

def UnsupportedName.message : UnsupportedName → Text
  | .arch name =>
    utf8 "unsupported architecture: " ++ name ++ utf8 " (supported: amd64, arm64)"
  | .os name =>
    utf8 "unsupported OS: " ++ name ++ utf8 " (supported: linux, darwin, freebsd)"

def foldedName (s : Text) : Text := Text.lower (Text.trim s)

namespace Arch

def name : Arch → Text
  | .x86 => utf8 "x86_64"
  | .arm64 => utf8 "aarch64"
  | _ => utf8 "unknown"

def shortName : Arch → Text
  | .x86 => utf8 "amd64"
  | .arm64 => utf8 "arm64"
  | _ => utf8 "unknown"

def parse (s : Text) : Except UnsupportedName Arch :=
  if foldedName s ∈ [utf8 "x86_64", utf8 "amd64", utf8 "x86-64"] then .ok .x86
  else if foldedName s ∈ [utf8 "aarch64", utf8 "arm64"] then .ok .arm64
  else .error (.arch s)

end Arch

inductive OS where
  | unknown
  | linux
  | darwin
  | freebsd
  | other (code : Int)
  deriving DecidableEq, Repr, Inhabited

namespace OS

def name : OS → Text
  | .linux => utf8 "linux"
  | .darwin => utf8 "darwin"
  | .freebsd => utf8 "freebsd"
  | _ => utf8 "unknown"

def parse (s : Text) : Except UnsupportedName OS :=
  if foldedName s = utf8 "linux" then .ok .linux
  else if foldedName s ∈ [utf8 "darwin", utf8 "macos"] then .ok .darwin
  else if foldedName s = utf8 "freebsd" then .ok .freebsd
  else .error (.os s)

end OS

structure Platform where
  arch : Arch
  os : OS
  deriving DecidableEq, Repr, Inhabited

namespace Platform

def text (p : Platform) : Text := p.arch.shortName ++ utf8 "-" ++ p.os.name

def fullText (p : Platform) : Text := p.arch.name ++ utf8 " on " ++ p.os.name

def canExecute (p : Platform) (arch : Arch) : Bool :=
  p.arch = arch && p.arch ≠ .unknown && p.os ≠ .unknown

end Platform

end OnePass
