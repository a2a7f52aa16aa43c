import OnePass.Arm64.Instr
import OnePass.X86.Instr

/-!
# The trace of a compilation

What a compilation does step by step, as events that can be shown line by line: the instructions
at their offsets, the movements of the operand stack, the operators as they were typed, and what
happened to the buffers.
-/

set_option autoImplicit false

namespace OnePass

inductive Event where
  | x86 (offset : Nat) (line : X86.Line)
  | arm64 (offset : Nat) (instr : Arm64.Named)
  | overflowed (buffer : Text) (offset needed : Nat)
  | committed (buffer : Text) (length : Nat)
  | pushed (register : Text) (ty : Ty) (depth : Nat)
  | popped (register : Text) (ty : Ty) (depth : Nat)
  | combined (left : Ty) (op : Operator) (right result : Ty) (coercion : Coercion)
  | compiled (tokens code data depth : Nat) (result : Ty)
  deriving DecidableEq, Repr

namespace Event

def instructionLine (offset : Nat) (listing : Text) : Text :=
  Text.hexPadded 6 offset ++ utf8 ": " ++ listing

def line : Event → Text
  | .x86 offset l => instructionLine offset l.text
  | .arm64 offset i => instructionLine offset i.text
  | .overflowed buffer offset needed =>
    utf8 "Buffer(" ++ buffer ++ utf8 "): overflow at offset " ++ Text.decimal offset ++
      utf8 " (+" ++ Text.decimal needed ++ utf8 ")"
  | .committed buffer length =>
    utf8 "Buffer(" ++ buffer ++ utf8 "): Committed with " ++ Text.decimal length ++ utf8 " bytes"
  | .pushed register ty depth =>
    utf8 "STACK: push " ++ register ++ utf8 " (" ++ ty.name ++ utf8 "), depth now " ++
      Text.decimal depth
  | .popped register ty depth =>
    utf8 "STACK: pop " ++ register ++ utf8 " (" ++ ty.name ++ utf8 "), depth now " ++
      Text.decimal depth
  | .combined left op right result coercion =>
    utf8 "compile: " ++ left.name ++ utf8 " " ++ op.symbol ++ utf8 " " ++ right.name ++
      utf8 " -> " ++ result.name ++ utf8 " (" ++ coercion.name ++ utf8 ")"
  | .compiled tokens code data depth result =>
    utf8 "compiled " ++ Text.decimal tokens ++ utf8 " tokens to " ++ Text.decimal code ++
      utf8 " code bytes, " ++ Text.decimal data ++ utf8 " data bytes, max stack depth " ++
      Text.decimal depth ++ utf8 ", result " ++ result.name

end Event

abbrev Trace := Array Event

def Trace.text (t : Trace) : Text :=
  t.toList.flatMap fun e => e.line ++ [Text.newline]

end OnePass
