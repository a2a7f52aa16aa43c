import OnePass.Compiler.Basic

/-!
# Artifacts

Compiled code that is written out instead of being run, with the addresses it is meant to be loaded
at and those of the routines it calls.
-/

set_option autoImplicit false

namespace OnePass

/-- An artifact. Code, data and symbols may be absent, which differs from being empty. -/
structure Artifact where
  arch : Text := []
  resultType : Text := []
  source : Text := []
  code : Option Bytes := none
  data : Option Bytes := none
  codeBase : UInt64 := 0
  dataBase : UInt64 := 0
  symbols : Option (List (Text × UInt64)) := none
  deriving DecidableEq, Repr, Inhabited

structure RegionSizes where
  code : Nat := 64 * 1024
  data : Nat := 16 * 1024
  deriving DecidableEq, Repr, Inhabited

namespace Artifact

def codeAddress : UInt64 := 0x400000

def regionAlignment : Nat := 0x1000

def alignedSize (n : Nat) : Nat := (n + regionAlignment - 1) / regionAlignment * regionAlignment

def dataAddress (sizes : RegionSizes) : UInt64 :=
  codeAddress + UInt64.ofNat (alignedSize sizes.code)

/-- Addresses that stand for the routines when there are none to call. -/
def placeholders : Symbols := { pow := 0xffff0000, fmod := 0xffff0010, concat := 0xffff0020 }

def symbolTable (s : Symbols) : List (Text × UInt64) :=
  [(utf8 "pow", s.pow), (utf8 "fmod", s.fmod), (utf8 "jitexpr_concat", s.concat)]

def ofEmission (target : Target) (symbols : Symbols) (source : Text) (ty : Ty) (e : Emission) :
    Artifact :=
  { arch := target.arch.name, resultType := ty.name, source,
    code := some e.code.bytes, data := some e.data.bytes,
    codeBase := e.code.base, dataBase := e.data.base,
    symbols := some (symbolTable symbols) }

def compile (arch : Arch) (symbols : Symbols) (sizes : RegionSizes) (source : Text)
    (verbose : Bool := true) : Build Artifact :=
  match arch.target? with
  | none => ⟨.error (.noTarget arch), #[]⟩
  | some target =>
    let code := Buffer.create (utf8 "code") sizes.code codeAddress
    let data := Buffer.create (utf8 "data") sizes.data (dataAddress sizes)
    let c := compileTokens target symbols (tokenize source) code data verbose
    match c.outcome with
    | .error d => ⟨.error (.diagnostic (d.withSource source)), c.emission.trace⟩
    | .ok ty =>
      let e := c.emission.commit
      ⟨.ok (ofEmission target symbols source ty e), e.trace⟩

end Artifact

end OnePass
