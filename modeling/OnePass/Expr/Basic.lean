import OnePass.Typing
import OnePass.Value

/-!
# Expressions

Expressions as trees, with their types and their values. The compiler never builds a tree; trees
say what its code must compute.
-/

set_option autoImplicit false

namespace OnePass

inductive Expr where
  | null
  | bool (b : Bool)
  | int (n : Int64)
  | float (x : Binary64)
  | string (s : Text)
  | sign (op : Operator) (operand : Expr)
  | binary (op : Operator) (left right : Expr)
  deriving DecidableEq, Repr, Inhabited

namespace Expr

def type? : Expr → Option Ty
  | .null => some .null
  | .bool _ => some .bool
  | .int _ => some .int
  | .float _ => some .float
  | .string _ => some .string
  | .sign op e =>
    match e.type? with
    | none => none
    | some t => (op.unaryResult t).toOption
  | .binary op l r =>
    match l.type?, r.type? with
    | some a, some b => ((op.promote a b).toOption).map Prod.fst
    | _, _ => none

end Expr

end OnePass
