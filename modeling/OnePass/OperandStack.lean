import OnePass.Text.Numeral
import OnePass.Typing

/-!
# Operand stacks

A compiler keeps the types of the values that its code will have on the native stack. The stack
also remembers how deep it has been and, in a ring, its latest movements, so that an imbalance can
be reported together with what led to it.
-/

set_option autoImplicit false

namespace OnePass

inductive Direction where
  | push
  | pop
  deriving DecidableEq, Repr, Inhabited

def Direction.name : Direction → Text
  | .push => utf8 "push"
  | .pop => utf8 "pop"

structure Movement where
  direction : Direction
  ty : Ty
  register : Text
  depth : Nat
  deriving DecidableEq, Repr, Inhabited

def Movement.text (m : Movement) : Text :=
  m.direction.name ++ utf8 " " ++ m.ty.name ++ utf8 " " ++ m.register ++ utf8 " (depth=" ++
    Text.decimal m.depth ++ utf8 ")"

inductive Imbalance where
  | empty (register : Text) (recent : List Movement)
  | depth (label : Text) (expected : Int) (actual : Nat) (recent : List Movement)
  | intoInteger (ty : Ty) (register : Text)
  | intoFloat (ty : Ty) (register : Text)
  deriving DecidableEq, Repr

namespace Imbalance

def report (recent : List Movement) : Text :=
  utf8 "\nrecent operations:\n" ++
    recent.flatMap fun m => utf8 "  " ++ m.text ++ [Text.newline]

def message : Imbalance → Text
  | .empty register recent =>
    utf8 "virtual stack imbalance: pop " ++ register ++ utf8 " with empty stack" ++ report recent
  | .depth label expected actual recent =>
    utf8 "virtual stack imbalance at " ++ label ++ utf8 ": expected depth " ++
      Text.signed expected ++ utf8 ", got " ++ Text.decimal actual ++ report recent
  | .intoInteger ty register =>
    utf8 "virtual stack imbalance: popped " ++ ty.name ++ utf8 " into integer register " ++ register
  | .intoFloat ty register =>
    utf8 "virtual stack imbalance: popped " ++ ty.name ++ utf8 " into float register " ++ register

end Imbalance

def OperandStack.historySize : Nat := 20

structure OperandStack where
  slots : List Ty := []
  maxDepth : Nat := 0
  history : Vector Movement OperandStack.historySize := Vector.replicate _ default
  movements : Nat := 0
  deriving DecidableEq, Repr, Inhabited

namespace OperandStack

def place (i : Nat) : Fin historySize := ⟨i % historySize, Nat.mod_lt i (by decide)⟩

def depth (s : OperandStack) : Nat := s.slots.length

def top? (s : OperandStack) : Option Ty := s.slots.head?

def record (s : OperandStack) (m : Movement) : OperandStack :=
  { s with history := s.history.set (place s.movements) m, movements := s.movements + 1 }

def recent (s : OperandStack) (n : Nat) : List Movement :=
  let shown := min n (min s.movements historySize)
  (List.range shown).map fun i => s.history.get (place (s.movements - shown + i))

def push (s : OperandStack) (ty : Ty) (register : Text) : OperandStack :=
  let slots := ty :: s.slots
  record { s with slots, maxDepth := max s.maxDepth slots.length }
    ⟨.push, ty, register, slots.length⟩

def pop (s : OperandStack) (register : Text) : Except Imbalance (Ty × OperandStack) :=
  match s.slots with
  | [] => .error (.empty register (s.recent 10))
  | ty :: slots => .ok (ty, record { s with slots } ⟨.pop, ty, register, slots.length⟩)

def validate (s : OperandStack) (expected : Int) (label : Text) : Except Imbalance Unit :=
  if (s.depth : Int) = expected then .ok ()
  else .error (.depth label expected s.depth (s.recent historySize))

end OperandStack

end OnePass
