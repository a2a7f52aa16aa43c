import OnePass.Binary64.Format
import OnePass.Text.Quoted

/-!
# Tokens

The lexemes of the expression language with their payloads, and tokens: lexemes with the place
they were read at.
-/

set_option autoImplicit false

namespace OnePass

/-- A place in a source: one-based line and column, and the length of the text meant, in bytes.
Places that point nowhere are zero. -/
structure Location where
  line : Int := 0
  column : Int := 0
  length : Int := 0
  deriving DecidableEq, Repr, Inhabited

def Location.text (l : Location) : Text :=
  Text.signed l.line ++ utf8 ":" ++ Text.signed l.column

/-- One lexeme. Numbers keep their spelling beside their value; a word that is no keyword and an
illegal lexeme with its reason are never part of a sentence. -/
inductive Lexeme where
  | endOfInput
  | int (value : Int64) (spelling : Text)
  | float (value : Binary64) (spelling : Text)
  | string (value : Text)
  | plus
  | minus
  | star
  | power
  | slash
  | percent
  | leftParen
  | rightParen
  | null
  | bool (value : Bool)
  | word (name : Text)
  | illegal (reason : Text)
  | other (code : Int)
  deriving DecidableEq, Repr, Inhabited

structure Token where
  lexeme : Lexeme
  location : Location
  deriving DecidableEq, Repr, Inhabited

namespace Lexeme

def kindName : Lexeme → Text
  | .endOfInput => utf8 "end of input"
  | .int _ _ => utf8 "integer"
  | .float _ _ => utf8 "float"
  | .string _ => utf8 "string"
  | .plus => utf8 "'+'"
  | .minus => utf8 "'-'"
  | .star => utf8 "'*'"
  | .power => utf8 "'**'"
  | .slash => utf8 "'/'"
  | .percent => utf8 "'%'"
  | .leftParen => utf8 "'('"
  | .rightParen => utf8 "')'"
  | .null => utf8 "'null'"
  | .bool true => utf8 "'true'"
  | .bool false => utf8 "'false'"
  | .word _ => utf8 "identifier"
  | .illegal _ => utf8 "illegal token"
  | .other code => utf8 "token(" ++ Text.signed code ++ utf8 ")"

def carried : Lexeme → Text
  | .int _ spelling => spelling
  | .float _ spelling => spelling
  | .string value => value
  | .null => utf8 "null"
  | .bool true => utf8 "true"
  | .bool false => utf8 "false"
  | .word name => name
  | .illegal reason => reason
  | _ => []

def describe : Lexeme → Text
  | .int value _ => utf8 "integer " ++ Text.signed value.toInt
  | .float value _ => utf8 "float " ++ value.text
  | .string value => utf8 "string " ++ Text.quoted value
  | .word name => utf8 "identifier '" ++ name ++ utf8 "'"
  | .illegal reason => reason
  | l => l.kindName

end Lexeme

end OnePass
