import OnePass.Binary64.Format
import OnePass.Text.Quoted
import OnePass.Typing

/-!
# Values

What an expression evaluates to, and how a value is shown.
-/

set_option autoImplicit false

namespace OnePass

inductive Value where
  | null
  | bool (b : Bool)
  | int (n : Int64)
  | float (x : Binary64)
  | string (s : Text)
  | unknown
  deriving DecidableEq, Repr, Inhabited

namespace Value

def ty : Value → Ty
  | .null => .null
  | .bool _ => .bool
  | .int _ => .int
  | .float _ => .float
  | .string _ => .string
  | .unknown => .unknown

def text : Value → Text
  | .null => utf8 "null"
  | .bool true => utf8 "true"
  | .bool false => utf8 "false"
  | .int n => Text.signed n.toInt
  | .float x => x.text
  | .string s => s
  | .unknown => utf8 "?"

def shown : Value → Text
  | .string s => Text.quoted s
  | v => v.text

end Value

end OnePass
