import OnePass.Binary64.Arithmetic
import OnePass.Expr.Basic

/-!
# The values of expressions

Integers wrap around at 64 bits and division truncates; a zero divisor yields zero, and so does a
negative exponent. Doubles follow an arithmetic that is given, an integer beside a double becomes
one, and strings are joined.
-/

set_option autoImplicit false

namespace OnePass

def intPower (a : Int64) : Nat → Int64
  | 0 => 1
  | n + 1 => a * intPower a n

namespace Operator

def onInts : Operator → Int64 → Int64 → Int64
  | .add, a, b => a + b
  | .sub, a, b => a - b
  | .mul, a, b => a * b
  | .div, a, b => if b = 0 then 0 else a / b
  | .mod, a, b => if b = 0 then 0 else a % b
  | .pow, a, b => if b < 0 then 0 else intPower a b.toInt.toNat
  | .unknown, _, _ => 0

def onFloats (D : Doubles) : Operator → Binary64 → Binary64 → Binary64
  | .add => D.add
  | .sub => D.sub
  | .mul => D.mul
  | .div => D.div
  | .mod => D.fmod
  | .pow => D.pow
  | .unknown => fun x _ => x

end Operator

namespace Value

def toFloat? (D : Doubles) : Value → Option Binary64
  | .int n => some (D.ofInt n)
  | .float x => some x
  | _ => none

def combine (D : Doubles) (op : Operator) (v w : Value) : Value :=
  match v, w with
  | .int a, .int b => .int (op.onInts a b)
  | .string s, .string t => .string (s ++ t)
  | v, w =>
    match v.toFloat? D, w.toFloat? D with
    | some x, some y => .float (op.onFloats D x y)
    | _, _ => .unknown

def signed (op : Operator) (v : Value) : Value :=
  match op, v with
  | .sub, .int n => .int (-n)
  | .sub, .float x => .float x.neg
  | .add, .int n => .int n
  | .add, .float x => .int x.saturate
  | _, _ => .unknown

end Value

def Expr.eval (D : Doubles) : Expr → Value
  | .null => .null
  | .bool b => .bool b
  | .int n => .int n
  | .float x => .float x
  | .string s => .string s
  | .sign op e => Value.signed op (e.eval D)
  | .binary op l r => Value.combine D op (l.eval D) (r.eval D)

end OnePass
