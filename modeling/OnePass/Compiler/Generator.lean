import OnePass.Compiler.Emission
import OnePass.Text.Distance

/-!
# Code generation in one pass

A generator reads tokens by recursive descent and decides the code while it reads: no tree is
built. Every production leaves one value on the native stack and yields its type.

    expression     := multiplicative (('+' | '-') multiplicative)*
    multiplicative := unary (('*' | '**' | '/' | '%') unary)*
    unary          := ('+' | '-') unary | primary
    primary        := '(' expression ')' | null | true | false | INT | FLOAT | STRING

All four multiplicative operators have one precedence and associate to the left. Parentheses and
signs nest to a limit; productions are indexed by the levels that are left.
-/

set_option autoImplicit false

namespace OnePass

/-- The addresses of the routines that generated code may call; zero for a routine that is not
there. -/
structure Symbols where
  pow : UInt64 := 0
  fmod : UInt64 := 0
  concat : UInt64 := 0
  deriving DecidableEq, Repr, Inhabited

def Symbols.address (s : Symbols) : Routine → UInt64
  | .pow => s.pow
  | .fmod => s.fmod
  | .concat => s.concat

structure Linkage where
  roles : Roles
  symbols : Symbols
  deriving DecidableEq, Repr

structure Generator where
  rest : List Token
  finish : Location
  position : Nat := 0
  stack : OperandStack := {}
  nesting : Nat := 0
  actions : Array Action := #[]
  deriving DecidableEq, Repr, Inhabited

namespace Generator

def endLocation (tokens : List Token) : Location :=
  match tokens.getLast? with
  | none => {}
  | some t => { line := t.location.line, column := t.location.column + t.location.length }

def start (tokens : List Token) : Generator := { rest := tokens, finish := endLocation tokens }

def next (g : Generator) : Token := g.rest.headD ⟨.endOfInput, g.finish⟩

def advance (g : Generator) : Generator :=
  match g.rest with
  | [] => g
  | _ :: rest => { g with rest, position := g.position + 1 }

def act (g : Generator) (a : Action) : Generator := { g with actions := g.actions.push a }

end Generator

abbrev Generate (ε α : Type) := EStateM ε Generator α

abbrev Production := Generate Diagnostic Ty

namespace Generate

variable {ε α : Type}

def peek : Generate ε Token := return (← get).next

def advance : Generate ε Unit := modify Generator.advance

def act (a : Action) : Generate ε Unit := modify (·.act a)

def emit (o : Operation) : Generate ε Unit := act (.operation o)

def push (l : Linkage) (ty : Ty) : Generate ε Unit := do
  let register := if ty.isFloat then l.roles.floatAccumulator else l.roles.accumulator
  emit (if ty.isFloat then .pushFloat register else .push register)
  modify fun g => { g with stack := g.stack.push ty register }
  act (.note (.pushed register ty (← get).stack.depth))

def popType (register : Text) : Generate Imbalance Ty := do
  match (← get).stack.pop register with
  | .error i => throw i
  | .ok (ty, stack) =>
    modify fun g => { g with stack }
    act (.note (.popped register ty stack.depth))
    return ty

def popInt (register : Text) : Generate Imbalance Unit := do
  let ty ← popType register
  if ty.isFloat then throw (.intoInteger ty register)
  emit (.pop register)

def popFloat (register : Text) : Generate Imbalance Unit := do
  let ty ← popType register
  if !ty.isFloat then throw (.intoFloat ty register)
  emit (.popFloat register)

def popAsFloat (freg reg : Text) : Generate Imbalance Unit := do
  if (← get).stack.top? = some .float then popFloat freg
  else
    popInt reg
    emit (.intToFloat freg reg)

def validate (expected : Nat) (label : Text) : Generate Imbalance Unit := do
  match (← get).stack.validate expected label with
  | .error i => throw i
  | .ok () => return ()

/-- The productions themselves keep the stack balanced, so an imbalance is a fault of theirs. -/
def balanced (m : Generate Imbalance α) : Generate Diagnostic α :=
  m.adaptExcept Diagnostic.unbalanced

def callRoutine (l : Linkage) (r : Routine) (location : Location) : Generate Diagnostic Unit := do
  if l.symbols.address r = 0 then throw (.missingRoutine r location)
  emit (.call (l.symbols.address r))

def binary (l : Linkage) (op : Operator) (location : Location) (left right : Ty) : Production := do
  match op.promote left right with
  | .error fault => throw (.ofTypes fault.reason location)
  | .ok (result, coercion) =>
    act (.note (.combined left op right result coercion))
    match coercion with
    | .int =>
      balanced (popInt l.roles.operand)
      balanced (popInt l.roles.accumulator)
      emit (.intBinary op l.roles.accumulator l.roles.operand)
    | .float =>
      balanced (popAsFloat l.roles.floatOperand l.roles.operand)
      balanced (popAsFloat l.roles.floatAccumulator l.roles.accumulator)
      match op with
      | .mod =>
        callRoutine l .fmod location
        emit (.moveFloat l.roles.floatAccumulator l.roles.floatResult)
      | .pow =>
        callRoutine l .pow location
        emit (.moveFloat l.roles.floatAccumulator l.roles.floatResult)
      | _ => emit (.floatBinary op l.roles.floatAccumulator l.roles.floatOperand)
    | .concat =>
      balanced (popInt l.roles.secondArgument)
      balanced (popInt l.roles.firstArgument)
      callRoutine l .concat location
      emit (.move l.roles.accumulator l.roles.result)
    push l result
    return result

/-- A sign before the topmost value. A plus before an integer changes nothing. -/
def sign (l : Linkage) (op : Operator) (location : Location) (operand : Ty) : Production := do
  match op.unaryResult operand with
  | .error fault => throw (.ofTypes fault.reason location)
  | .ok result =>
    if op = .add ∧ operand = .int then return result
    else
      if op = .add then
        balanced (popFloat l.roles.floatAccumulator)
        emit (.floatToInt l.roles.accumulator l.roles.floatAccumulator)
      else if operand.isFloat then
        balanced (popFloat l.roles.floatAccumulator)
        emit (.floatNegate l.roles.floatAccumulator)
      else
        balanced (popInt l.roles.accumulator)
        emit (.intNegate l.roles.accumulator)
      push l result
      return result

/-- Operators that follow a left operand, one after the other; each one takes a token at least, so
there are no more of them than tokens. -/
def binaryRest (l : Linkage) (operator? : Lexeme → Option Operator) (operand : Production) :
    Nat → Ty → Production
  | 0, left => return left
  | tokens + 1, left => do
    let token ← peek
    match operator? token.lexeme with
    | none => return left
    | some op =>
      advance
      let right ← operand
      let result ← binary l op token.location left right
      binaryRest l operator? operand tokens result

def binaryLevel (l : Linkage) (operator? : Lexeme → Option Operator) (operand : Production) :
    Production := do
  let left ← operand
  binaryRest l operator? operand (← get).rest.length left

def additiveOperator? : Lexeme → Option Operator
  | .plus => some .add
  | .minus => some .sub
  | _ => none

def multiplicativeOperator? : Lexeme → Option Operator
  | .star => some .mul
  | .power => some .pow
  | .slash => some .div
  | .percent => some .mod
  | _ => none

def multiplicative (l : Linkage) (unary : Production) : Production :=
  binaryLevel l multiplicativeOperator? unary

def expression (l : Linkage) (unary : Production) : Production :=
  binaryLevel l additiveOperator? (multiplicative l unary)

def maxNesting : Nat := 1000

def tooDeep (location : Location) : Diagnostic :=
  .ofGrammar
    (utf8 "expression nested deeper than " ++ Text.decimal maxNesting ++ utf8 " levels") location

def leaving (p : Production) : Production := fun g =>
  match p g with
  | .ok ty g => .ok ty { g with nesting := g.nesting - 1 }
  | .error d g => .error d { g with nesting := g.nesting - 1 }

def nested (location : Location) (inner : Option Production) (body : Production → Production) :
    Production := do
  modify fun g => { g with nesting := g.nesting + 1 }
  match inner with
  | none => throw (tooDeep location)
  | some p => leaving (body p)

def parenthesised (l : Linkage) (opening : Location) (unary : Production) : Production := do
  let ty ← expression l unary
  let closing ← peek
  if closing.lexeme = .rightParen then
    advance
    return ty
  else
    throw { Diagnostic.unexpected (utf8 "')'") closing with
      help := utf8 "the '(' at " ++ opening.text ++ utf8 " is never closed" }

def keywords : List Text := [utf8 "null", utf8 "true", utf8 "false"]

def unknownWord (name : Text) (location : Location) : Diagnostic :=
  let d := Diagnostic.ofGrammar (utf8 "unknown identifier '" ++ name ++ utf8 "'") location
  match Text.nearest name keywords 2 1 with
  | similar :: _ => { d with suggestion := utf8 "did you mean '" ++ similar ++ utf8 "'?" }
  | [] =>
    { d with help := utf8 "expressions have no variables; the only words are null, true and false" }

def literal (l : Linkage) (load : Action) (ty : Ty) : Production := do
  act load
  push l ty
  return ty

def wordLiteral (l : Linkage) (value : UInt64) (ty : Ty) : Production :=
  literal l (.operation (.loadImmediate l.roles.accumulator value)) ty

def primary (l : Linkage) (inner : Option Production) : Production := do
  let token ← peek
  advance
  match token.lexeme with
  | .leftParen => nested token.location inner (parenthesised l token.location)
  | .null => wordLiteral l 0 .null
  | .bool value => wordLiteral l (if value then 1 else 0) .bool
  | .int value _ => wordLiteral l value.toUInt64 .int
  | .float value _ => literal l (.loadFloat l.roles.floatAccumulator value) .float
  | .string value => literal l (.loadText l.roles.accumulator value) .string
  | .word name => throw (unknownWord name token.location)
  | .illegal reason => throw (.ofGrammar reason token.location)
  | _ => throw (.unexpected (utf8 "an operand") token)

/-- A sign and its operand, or a primary; `inner` is the same production one level down. -/
def unaryWith (l : Linkage) (inner : Option Production) : Production := do
  let token ← peek
  match additiveOperator? token.lexeme with
  | none => primary l inner
  | some op =>
    advance
    nested token.location inner fun operand => do
      let ty ← operand
      sign l op token.location ty

def unary (l : Linkage) : Nat → Production
  | 0 => unaryWith l none
  | levels + 1 => unaryWith l (some (unary l levels))

def unaryBelow (l : Linkage) : Nat → Option Production
  | 0 => none
  | levels + 1 => some (unary l levels)

theorem unary_eq (l : Linkage) (levels : Nat) :
    unary l levels = unaryWith l (unaryBelow l levels) := by
  cases levels <;> rfl

def here (p : Nat → Production) : Production := fun g => p (maxNesting - g.nesting) g

end Generate

end OnePass
