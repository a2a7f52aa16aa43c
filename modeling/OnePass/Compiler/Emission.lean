import OnePass.Arm64.Target
import OnePass.Diagnostic
import OnePass.X86.Target

/-!
# Emission

A compilation decides what its code does as a list of actions: operations of the target, constants
to store and load, and notes for the trace. Emission carries the actions out on two buffers, one
for code and one for constants, under one trace.
-/

set_option autoImplicit false

namespace OnePass

def Arch.target? : Arch → Option Target
  | .x86 => some X86.target
  | .arm64 => some Arm64.target
  | _ => none

inductive Action where
  | operation (o : Operation)
  | loadFloat (freg : Text) (x : Binary64)
  | loadText (reg : Text) (s : Text)
  | note (e : Event)
  deriving DecidableEq, Repr

structure Emission where
  code : Buffer
  data : Buffer
  trace : Trace := #[]
  misuse : Option Misuse := none
  verbose : Bool := true
  deriving DecidableEq, Repr, Inhabited

namespace Emission

def codeWriter (e : Emission) : Writer := ⟨e.code, e.trace, e.misuse, e.verbose⟩

def dataWriter (e : Emission) : Writer := ⟨e.data, e.trace, e.misuse, e.verbose⟩

def onCode (e : Emission) (f : Writer → Writer) : Emission :=
  let w := f e.codeWriter
  { e with code := w.buffer, trace := w.trace, misuse := w.misuse }

def onData (e : Emission) (f : Writer → Writer) : Emission :=
  let w := f e.dataWriter
  { e with data := w.buffer, trace := w.trace, misuse := w.misuse }

def floatConstant (e : Emission) (x : Binary64) : UInt64 × Emission :=
  let e := e.onData (·.align 8)
  (e.data.address, e.onData (·.append (littleEndian 8 x.bits.toNat)))

def textConstant (e : Emission) (s : Text) : UInt64 × Emission :=
  let e := e.onData (·.align 8)
  (e.data.address, e.onData (·.appendAll [s, [0]]))

def perform (target : Target) (e : Emission) : Action → Emission
  | .operation o => e.onCode (target.perform · o)
  | .loadFloat freg x =>
    let (address, e) := e.floatConstant x
    e.onCode (target.perform · (.loadFloat freg address))
  | .loadText reg s =>
    let (address, e) := e.textConstant s
    e.onCode (target.perform · (.loadImmediate reg address))
  | .note event => e.onCode (·.note event)

def performAll (target : Target) (e : Emission) (actions : Array Action) : Emission :=
  actions.foldl (perform target) e

/-- The failure to report: that of the code before that of the constants. -/
def failure? (e : Emission) : Option Failure := e.code.failure <|> e.data.failure

def commit (e : Emission) : Emission := (e.onCode (·.commit)).onData (·.commit)

end Emission

end OnePass
