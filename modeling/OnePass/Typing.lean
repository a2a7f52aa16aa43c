import OnePass.Text.Basic

/-!
# Types and operators

The static types of the language, its operators, and the two tables that say which operands an
operator takes, what it yields and how the operands are brought together.
-/

set_option autoImplicit false

namespace OnePass

/-- The static type of a value; `unknown` is any type outside the language. -/
inductive Ty where
  | null
  | bool
  | int
  | float
  | string
  | unknown
  deriving DecidableEq, Repr, Inhabited

namespace Ty

def name : Ty → Text
  | .null => utf8 "null"
  | .bool => utf8 "bool"
  | .int => utf8 "int"
  | .float => utf8 "float"
  | .string => utf8 "string"
  | .unknown => utf8 "unknown"

def isFloat (t : Ty) : Bool := t = .float

def isNumeric (t : Ty) : Bool := t = .int || t = .float

end Ty

inductive Operator where
  | add
  | sub
  | mul
  | div
  | mod
  | pow
  | unknown
  deriving DecidableEq, Repr, Inhabited

def Operator.symbol : Operator → Text
  | .add => utf8 "+"
  | .sub => utf8 "-"
  | .mul => utf8 "*"
  | .div => utf8 "/"
  | .mod => utf8 "%"
  | .pow => utf8 "**"
  | .unknown => utf8 "?"

/-- How the operands of a binary operator are brought together: as integers, as doubles after
promotion, or as strings to be joined. -/
inductive Coercion where
  | int
  | float
  | concat
  deriving DecidableEq, Repr

def Coercion.name : Coercion → Text
  | .int => utf8 "int"
  | .float => utf8 "float"
  | .concat => utf8 "concat"

inductive TypeFault where
  | binary (op : Operator) (left right : Ty)
  | unary (op : Operator) (operand : Ty)
  | notUnary (op : Operator)
  deriving DecidableEq, Repr

def TypeFault.reason : TypeFault → Text
  | .binary op l r =>
    utf8 "cannot apply '" ++ op.symbol ++ utf8 "' to " ++ l.name ++ utf8 " and " ++ r.name
  | .unary op t => utf8 "cannot apply unary '" ++ op.symbol ++ utf8 "' to " ++ t.name
  | .notUnary op => utf8 "'" ++ op.symbol ++ utf8 "' is not a unary operator"

def TypeFault.lead : Text := utf8 "type error: "

def TypeFault.message (f : TypeFault) : Text := TypeFault.lead ++ f.reason

/-- The table of binary operators: numbers combine with numbers, as doubles unless both are
integers; strings are only joined. -/
def Operator.promote (op : Operator) (left right : Ty) : Except TypeFault (Ty × Coercion) :=
  if left = .int ∧ right = .int then .ok (.int, .int)
  else if left.isNumeric ∧ right.isNumeric then .ok (.float, .float)
  else if op = .add ∧ left = .string ∧ right = .string then .ok (.string, .concat)
  else .error (.binary op left right)

/-- The table of unary operators. A minus keeps the type; a plus always yields an integer. -/
def Operator.unaryResult (op : Operator) (operand : Ty) : Except TypeFault Ty :=
  if operand.isNumeric then
    match op with
    | .sub => .ok operand
    | .add => .ok .int
    | _ => .error (.notUnary op)
  else .error (.unary op operand)

end OnePass
