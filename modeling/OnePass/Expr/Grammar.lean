import OnePass.Expr.Basic
import OnePass.Token.Basic

/-!
# The grammar of expressions

Which sequences of lexemes denote which expressions:

    expression     := multiplicative | expression ('+' | '-') multiplicative
    multiplicative := unary | multiplicative ('*' | '**' | '/' | '%') unary
    unary          := ('+' | '-') unary | primary
    primary        := '(' expression ')' | null | true | false | INT | FLOAT | STRING

A derivation is a tree of productions. It yields lexemes, denotes an expression, and is nested as
deep as parentheses and signs enclose one of its points.
-/

set_option autoImplicit false

namespace OnePass.Grammar

inductive Additive where
  | plus
  | minus
  deriving DecidableEq, Repr

inductive Multiplicative where
  | star
  | power
  | slash
  | percent
  deriving DecidableEq, Repr

inductive Literal where
  | null
  | bool (b : Bool)
  | int (n : Int64) (spelling : Text)
  | float (x : Binary64) (spelling : Text)
  | string (s : Text)
  deriving DecidableEq, Repr

def Additive.lexeme : Additive → Lexeme
  | .plus => .plus
  | .minus => .minus

def Additive.operator : Additive → Operator
  | .plus => .add
  | .minus => .sub

def Multiplicative.lexeme : Multiplicative → Lexeme
  | .star => .star
  | .power => .power
  | .slash => .slash
  | .percent => .percent

def Multiplicative.operator : Multiplicative → Operator
  | .star => .mul
  | .power => .pow
  | .slash => .div
  | .percent => .mod

def Literal.lexeme : Literal → Lexeme
  | .null => .null
  | .bool b => .bool b
  | .int n spelling => .int n spelling
  | .float x spelling => .float x spelling
  | .string s => .string s

def Literal.expr : Literal → Expr
  | .null => .null
  | .bool b => .bool b
  | .int n _ => .int n
  | .float x _ => .float x
  | .string s => .string s

inductive Category where
  | expression
  | term
  | factor
  | atom
  deriving DecidableEq, Repr

inductive Derivation : Category → Type where
  | literal (l : Literal) : Derivation .atom
  | parens (d : Derivation .expression) : Derivation .atom
  | atom (d : Derivation .atom) : Derivation .factor
  | sign (s : Additive) (d : Derivation .factor) : Derivation .factor
  | factor (d : Derivation .factor) : Derivation .term
  | multiply (a : Derivation .term) (o : Multiplicative) (b : Derivation .factor) : Derivation .term
  | term (d : Derivation .term) : Derivation .expression
  | add (a : Derivation .expression) (o : Additive) (b : Derivation .term) : Derivation .expression

namespace Derivation

def lexemes {c : Category} : Derivation c → List Lexeme
  | .literal l => [l.lexeme]
  | .parens d => .leftParen :: (d.lexemes ++ [.rightParen])
  | .atom d => d.lexemes
  | .sign s d => s.lexeme :: d.lexemes
  | .factor d => d.lexemes
  | .multiply a o b => a.lexemes ++ o.lexeme :: b.lexemes
  | .term d => d.lexemes
  | .add a o b => a.lexemes ++ o.lexeme :: b.lexemes

def expr {c : Category} : Derivation c → Expr
  | .literal l => l.expr
  | .parens d => d.expr
  | .atom d => d.expr
  | .sign s d => .sign s.operator d.expr
  | .factor d => d.expr
  | .multiply a o b => .binary o.operator a.expr b.expr
  | .term d => d.expr
  | .add a o b => .binary o.operator a.expr b.expr

/-- The greatest number of parentheses and signs that enclose one point of a derivation. -/
def nesting {c : Category} : Derivation c → Nat
  | .literal _ => 0
  | .parens d => d.nesting + 1
  | .atom d => d.nesting
  | .sign _ d => d.nesting + 1
  | .factor d => d.nesting
  | .multiply a _ b => max a.nesting b.nesting
  | .term d => d.nesting
  | .add a _ b => max a.nesting b.nesting

end Derivation

/-- The lexemes of a token list that count: those before the first end of input. -/
def sentence (tokens : List Token) : List Lexeme :=
  (tokens.map Token.lexeme).takeWhile (· ≠ .endOfInput)

end OnePass.Grammar
