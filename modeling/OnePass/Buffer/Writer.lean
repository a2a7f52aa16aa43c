import OnePass.Buffer.Basic
import OnePass.Trace

/-!
# Writers

A writer fills a buffer and, when it is verbose, keeps the trace of what it does. After a misuse of
the buffer nothing happens any more, in the buffer or in the trace.
-/

set_option autoImplicit false

namespace OnePass

structure Writer where
  buffer : Buffer
  trace : Trace := #[]
  misuse : Option Misuse := none
  verbose : Bool := true
  deriving DecidableEq, Repr, Inhabited

namespace Writer

def offset (w : Writer) : Nat := w.buffer.offset

def use (w : Writer) (f : Buffer → Except Misuse Buffer) : Writer :=
  match w.misuse with
  | some _ => w
  | none =>
    match f w.buffer with
    | .ok b => { w with buffer := b }
    | .error m => { w with misuse := some m }

def note (w : Writer) (e : Event) : Writer :=
  if w.verbose ∧ w.misuse = none then { w with trace := w.trace.push e } else w

def fail (w : Writer) (cause : Rejection) : Writer := w.use fun b => .ok (b.fail cause)

def noteOverflow (w : Writer) (n : Nat) : Writer :=
  if w.buffer.overflows n then w.note (.overflowed w.buffer.name w.offset n) else w

def append (w : Writer) (bs : Bytes) : Writer := (w.noteOverflow bs.length).use (·.append bs)

def write (w : Writer) (bs : Bytes) : Except Failure Nat × Writer :=
  let w := w.append bs
  match w.buffer.failure with
  | some f => (if bs = [] then .ok 0 else .error f, w)
  | none => (.ok bs.length, w)

def appendAll (w : Writer) (pieces : List Bytes) : Writer := pieces.foldl append w

def align (w : Writer) (n : Int64) : Writer :=
  (w.noteOverflow (w.buffer.padding n).toNatClampNeg).use (·.align n)

def patchByte (w : Writer) (place : Int64) (v : UInt8) : Writer := w.use (·.patchByte place v)

def patchWord (w : Writer) (place : Int64) (v : UInt32) : Writer := w.use (·.patchWord place v)

def commit (w : Writer) : Writer :=
  (w.note (.committed w.buffer.name w.offset)).use fun b => .ok b.commit

end Writer

end OnePass
