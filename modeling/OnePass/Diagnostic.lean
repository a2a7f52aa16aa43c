import OnePass.Buffer.Failure
import OnePass.OperandStack
import OnePass.Token.Basic

/-!
# Diagnostics

What a compilation reports when it fails: a message with the place it is about, and how it is shown
to a reader with the line of the source it stands in.
-/

set_option autoImplicit false

namespace OnePass

inductive Level where
  | error
  | fatal
  | unknown
  deriving DecidableEq, Repr, Inhabited

def Level.name : Level → Text
  | .error => utf8 "error"
  | .fatal => utf8 "fatal error"
  | .unknown => utf8 "unknown"

inductive Category where
  | parsing
  | typing
  | codegen
  | internal
  | unknown
  deriving DecidableEq, Repr, Inhabited

def Category.name : Category → Text
  | .parsing => utf8 "syntax"
  | .typing => utf8 "type"
  | .codegen => utf8 "codegen"
  | .internal => utf8 "internal"
  | .unknown => utf8 "unknown"

inductive Routine where
  | fmod
  | pow
  | concat
  deriving DecidableEq, Repr

def Routine.description : Routine → Text
  | .fmod => utf8 "fmod"
  | .pow => utf8 "pow"
  | .concat => utf8 "string concatenation"

def notCallable : Text := utf8 "invoking generated code requires cgo"

inductive Cause where
  | grammar
  | typing
  | buffer (f : Failure)
  | stack (i : Imbalance)
  | routine (r : Routine)
  | reported (message : Text)
  deriving DecidableEq, Repr

def Cause.message : Cause → Text
  | .grammar => utf8 "syntax error"
  | .typing => utf8 "type error"
  | .buffer f => f.message
  | .stack i => i.message
  | .routine r => notCallable ++ utf8 ": runtime routine " ++ r.description
  | .reported m => m

structure Diagnostic where
  level : Level
  category : Category
  message : Text
  location : Location := {}
  sourceLine : Text := []
  suggestion : Text := []
  help : Text := []
  cause : Cause
  deriving DecidableEq, Repr

namespace Diagnostic

def ofGrammar (message : Text) (location : Location) : Diagnostic :=
  { level := .error, category := .parsing, message, location, cause := .grammar }

def unexpected (expected : Text) (got : Token) : Diagnostic :=
  ofGrammar (utf8 "expected " ++ expected ++ utf8 ", got " ++ got.lexeme.describe) got.location

def ofTypes (message : Text) (location : Location) : Diagnostic :=
  { level := .error, category := .typing, message, location,
    help := utf8 "'+' joins two strings or two numbers; '-', '*', '/', '%' and '**' need numbers",
    cause := .typing }

def ofTypeReport (report : Text) (location : Location) : Diagnostic :=
  ofTypes ((Text.after? TypeFault.lead report).getD report) location

def ofCodegen (cause : Cause) : Diagnostic :=
  { level := .fatal, category := .codegen, message := cause.message,
    help := utf8 "increase the code or data page size (-code-size, -data-size)", cause }

def internal (message : Text) (cause : Cause) : Diagnostic :=
  { level := .fatal, category := .internal, message,
    help := utf8 "This is an internal compiler error. Please report this bug.", cause }

def unbalanced (i : Imbalance) : Diagnostic :=
  internal (utf8 "unbalanced operand stack") (.stack i)

def missingRoutine (r : Routine) (location : Location) : Diagnostic :=
  { ofCodegen (.routine r) with
    location, help := utf8 "build with CGO_ENABLED=1 to link the runtime routines" }

def text (d : Diagnostic) : Text :=
  d.location.text ++ utf8 ": " ++ d.category.name ++ utf8 " error: " ++ d.message

def withSource (d : Diagnostic) (source : Text) : Diagnostic :=
  if d.sourceLine ≠ [] ∨ source = [] ∨ d.location.line ≤ 0 then d
  else { d with sourceLine := (Text.lines source).getD (d.location.line.toNat - 1) [] }

inductive Color where
  | red
  | blue
  | green
  | cyan
  deriving DecidableEq, Repr

def Color.code : Color → Text
  | .red => utf8 "\x1b[1;31m"
  | .blue => utf8 "\x1b[1;34m"
  | .green => utf8 "\x1b[1;32m"
  | .cyan => utf8 "\x1b[1;36m"

def paint (colored : Bool) (c : Color) (s : Text) : Text :=
  if colored then c.code ++ s ++ utf8 "\x1b[0m" else s

def marks (d : Diagnostic) (colored : Bool) : Text :=
  if 0 < d.location.column then
    Text.fill (d.location.column - 1).toNat 0x20 ++
      paint colored .red (Text.fill (max d.location.length 1).toNat 0x5e)
  else []

def excerpt (d : Diagnostic) (colored : Bool) : Text :=
  let number := Text.signed d.location.line
  let margin := Text.fill (number.length + 1) 0x20 ++ utf8 "|"
  margin ++ utf8 "\n" ++ number ++ utf8 " | " ++ d.sourceLine ++ utf8 "\n" ++ margin ++ utf8 " " ++
    d.marks colored ++ utf8 "\n"

def advice (lead : Text) (s : Text) : Text :=
  if s = [] then [] else lead ++ s ++ utf8 "\n"

def format (d : Diagnostic) (colored : Bool) : Text :=
  paint colored .red (d.level.name ++ utf8 ": ") ++ d.message ++ utf8 "\n" ++
    paint colored .blue (utf8 "  --> " ++ d.location.text) ++ utf8 "\n" ++
    (if d.sourceLine = [] then [] else d.excerpt colored) ++
    advice (paint colored .green (utf8 "   help: ")) d.suggestion ++
    advice (paint colored .cyan (utf8 "   note: ")) d.help

end Diagnostic

end OnePass
