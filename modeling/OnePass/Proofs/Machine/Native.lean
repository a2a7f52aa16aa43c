import OnePass.Compiler.Generator
import OnePass.Expr.Eval
import OnePass.Machine

/-!
# What operations do

Operations as relations between views of a machine. A view shows the registers by name, the slots
of the native stack from the top, the memory and where it is free. An operation promises the
registers it sets and little else: other registers may be spoiled unless it says that they are
kept. What routines ask for and promise is a parameter.
-/

set_option autoImplicit false

namespace OnePass.Native

structure View where
  word : Text → UInt64
  double : Text → Binary64
  slots : List UInt64
  memory : Ram
  free : UInt64

structure Contract where
  /-- Whether a routine returns whenever it gets what it asks for. -/
  total : Prop
  asks : Routine → View → Prop
  promises : Routine → View → View → Prop

/-- What operations depend on: how doubles are computed, the addresses of routines and their
contract, how many slots the stack has, and which addresses are the stack's own. -/
structure Context where
  doubles : Doubles
  symbols : Symbols
  contract : Contract
  limit : Nat
  own : UInt64 → Prop

def shift (depth : Nat) : Operation → Nat
  | .push _ => depth + 1
  | .pushFloat _ => depth + 1
  | .pop _ => depth - 1
  | .popFloat _ => depth - 1
  | _ => depth

def height (depth : Nat) (os : List Operation) : Nat := os.foldl shift depth

namespace Context

variable (c : Context)

structure Quiet (v v' : View) : Prop where
  free : v'.free = v.free
  memory : ∀ a, ¬c.own a → v'.memory a = v.memory a

def Enabled : Operation → View → Prop
  | .prologue, _ => False
  | .epilogue, _ => False
  | .push _, v => v.slots.length < c.limit
  | .pushFloat _, v => v.slots.length < c.limit
  | .pop _, v => v.slots ≠ []
  | .popFloat _, v => v.slots ≠ []
  | .call address, v => address ≠ 0 ∧
    ∃ r, c.symbols.address r = address ∧ (c.contract.total → c.contract.asks r v)
  | _, _ => True

def Effect : Operation → View → View → Prop
  | .prologue, _, _ => False
  | .epilogue, _, _ => False
  | .loadImmediate reg value, v, v' => v'.word reg = value ∧ v'.slots = v.slots ∧ c.Quiet v v'
  | .loadFloat freg address, v, v' =>
    v'.double freg = ⟨v.memory.word address⟩ ∧ v'.slots = v.slots ∧ c.Quiet v v'
  | .push reg, v, v' => v'.slots = v.word reg :: v.slots ∧ c.Quiet v v'
  | .pushFloat freg, v, v' => v'.slots = (v.double freg).bits :: v.slots ∧ c.Quiet v v'
  | .pop reg, v, v' =>
    v.slots = v'.word reg :: v'.slots ∧ (∀ n, n ≠ reg → v'.word n = v.word n) ∧
      v'.double = v.double ∧ c.Quiet v v'
  | .popFloat freg, v, v' =>
    v.slots = (v'.double freg).bits :: v'.slots ∧ (∀ n, n ≠ freg → v'.double n = v.double n) ∧
      v'.word = v.word ∧ c.Quiet v v'
  | .move dst src, v, v' => v'.word dst = v.word src ∧ v'.slots = v.slots ∧ c.Quiet v v'
  | .moveFloat dst src, v, v' => v'.double dst = v.double src ∧ v'.slots = v.slots ∧ c.Quiet v v'
  | .call address, v, v' =>
    v'.slots = v.slots ∧ ∀ r, c.symbols.address r = address → c.contract.asks r v →
      c.contract.promises r v v'
  | .intToFloat freg reg, v, v' =>
    v'.double freg = c.doubles.ofInt (v.word reg).toInt64 ∧
      (∀ n, n ≠ freg → v'.double n = v.double n) ∧ v'.word = v.word ∧ v'.slots = v.slots ∧
      c.Quiet v v'
  | .floatToInt reg freg, v, v' =>
    v'.word reg = (v.double freg).saturate.toUInt64 ∧ v'.slots = v.slots ∧ c.Quiet v v'
  | .intBinary op dst src, v, v' =>
    v'.word dst = (op.onInts (v.word dst).toInt64 (v.word src).toInt64).toUInt64 ∧
      v'.slots = v.slots ∧ c.Quiet v v'
  | .floatBinary op dst src, v, v' =>
    v'.double dst = op.onFloats c.doubles (v.double dst) (v.double src) ∧ v'.slots = v.slots ∧
      c.Quiet v v'
  | .intNegate reg, v, v' => v'.word reg = -v.word reg ∧ v'.slots = v.slots ∧ c.Quiet v v'
  | .floatNegate freg, v, v' =>
    v'.double freg = (v.double freg).neg ∧ v'.slots = v.slots ∧ c.Quiet v v'

/-- The views from which operations can be performed one after the other and `post` then holds. -/
def wp : List Operation → (View → Prop) → View → Prop
  | [], post, v => post v
  | o :: os, post, v => c.Enabled o v ∧ ∀ v', c.Effect o v v' → wp os post v'

variable {c}

theorem wp_append (as bs : List Operation) (post : View → Prop) (v : View) :
    c.wp (as ++ bs) post v ↔ c.wp as (c.wp bs post) v := by
  induction as generalizing v with
  | nil => rfl
  | cons a as ih => simp only [List.cons_append, wp, ih]

theorem wp_mono {os : List Operation} {post post' : View → Prop} (hp : ∀ v, post v → post' v)
    {v : View} (h : c.wp os post v) : c.wp os post' v := by
  induction os generalizing v with
  | nil => exact hp v h
  | cons o os ih => exact ⟨h.1, fun v' he => ih (h.2 v' he)⟩

/-- Operations use and free slots as they are counted. -/
theorem length_slots {o : Operation} {v v' : View} (he : c.Enabled o v) (h : c.Effect o v v') :
    v'.slots.length = shift v.slots.length o := by
  cases o with
  | prologue | epilogue => exact he.elim
  | push r | pushFloat r => simp [shift, h.1]
  | pop r | popFloat r => simp [shift, h.1]
  | loadImmediate r x | loadFloat r x | move d s | moveFloat d s | floatToInt r f
  | intBinary op d s | floatBinary op d s | intNegate r | floatNegate f => simp [shift, h.2.1]
  | call a => simp [shift, h.1]
  | intToFloat f r => simp [shift, h.2.2.2.1]

theorem Quiet.trans {v v' v'' : View} (h : c.Quiet v v') (h' : c.Quiet v' v'') :
    c.Quiet v v'' :=
  ⟨h'.free.trans h.free, fun a ha => (h'.memory a ha).trans (h.memory a ha)⟩

end Context

inductive Used (l : Linkage) : Operation → Prop where
  | loadWord (value : UInt64) : Used l (.loadImmediate l.roles.accumulator value)
  | loadFloat (address : UInt64) : Used l (.loadFloat l.roles.floatAccumulator address)
  | push : Used l (.push l.roles.accumulator)
  | pushFloat : Used l (.pushFloat l.roles.floatAccumulator)
  | popAccumulator : Used l (.pop l.roles.accumulator)
  | popOperand : Used l (.pop l.roles.operand)
  | popFirst : Used l (.pop l.roles.firstArgument)
  | popSecond : Used l (.pop l.roles.secondArgument)
  | popResult : Used l (.pop l.roles.result)
  | popFloatAccumulator : Used l (.popFloat l.roles.floatAccumulator)
  | popFloatOperand : Used l (.popFloat l.roles.floatOperand)
  | popFloatResult : Used l (.popFloat l.roles.floatResult)
  | moveResult : Used l (.move l.roles.accumulator l.roles.result)
  | moveFloatResult : Used l (.moveFloat l.roles.floatAccumulator l.roles.floatResult)
  | call (r : Routine) : Used l (.call (l.symbols.address r))
  | convertAccumulator : Used l (.intToFloat l.roles.floatAccumulator l.roles.accumulator)
  | convertOperand : Used l (.intToFloat l.roles.floatOperand l.roles.operand)
  | truncate : Used l (.floatToInt l.roles.accumulator l.roles.floatAccumulator)
  | intBinary (op : Operator) (h : op ≠ .unknown) :
      Used l (.intBinary op l.roles.accumulator l.roles.operand)
  | floatBinary (op : Operator) (h : op = .add ∨ op = .sub ∨ op = .mul ∨ op = .div) :
      Used l (.floatBinary op l.roles.floatAccumulator l.roles.floatOperand)
  | negate : Used l (.intNegate l.roles.accumulator)
  | negateFloat : Used l (.floatNegate l.roles.floatAccumulator)

end OnePass.Native
