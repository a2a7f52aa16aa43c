import OnePass.Text.Numeral
import OnePass.Typing

/-!
# What can go wrong with a buffer

A failure is recorded in the buffer and makes it drop everything that follows. A misuse is an
error of the caller, who must not go on.
-/

set_option autoImplicit false

namespace OnePass

inductive RegisterFile where
  | x86General
  | x86Float
  | arm64General
  | arm64Float
  deriving DecidableEq, Repr

def RegisterFile.name : RegisterFile → Text
  | .x86General => utf8 "x86_64 general purpose register"
  | .x86Float => utf8 "x86_64 SSE register"
  | .arm64General => utf8 "ARM64 register"
  | .arm64Float => utf8 "ARM64 FP register"

inductive Rejection where
  | patchOutside (offset : Int64) (emitted : Nat)
  | register (file : RegisterFile) (name : Text)
  | baseRegister (name : Text)
  | jumpDistance (label : Option Text) (distance : Int)
  | notBranch (offset : Int64) (word : UInt32)
  | integerOperator (target : Text) (op : Operator)
  | floatOperator (target : Text) (op : Operator)
  | divisionRegisters (op : Operator) (dst src : Text)
  | powerRegisters (target scratch dst src : Text)
  | reported (message : Text)
  deriving DecidableEq, Repr

def Rejection.message : Rejection → Text
  | .patchOutside offset emitted =>
    utf8 "patch at " ++ Text.signed offset.toInt ++ utf8 " outside emitted range [0," ++
      Text.decimal emitted ++ utf8 ")"
  | .register file name => utf8 "invalid " ++ file.name ++ utf8 ": " ++ name
  | .baseRegister name => utf8 "movsd: unsupported base register " ++ name
  | .jumpDistance label distance =>
    (match label with
      | some l => l ++ utf8 ": "
      | none => []) ++
      utf8 "branch distance " ++ Text.signed distance ++ utf8 " out of rel8 range"
  | .notBranch offset word =>
    utf8 "patch at " ++ Text.signed offset.toInt ++ utf8 ": 0x" ++
      Text.hexPadded 8 word.toNat ++ utf8 " is not a branch"
  | .integerOperator target op =>
    target ++ utf8 ": unsupported integer operator " ++ op.symbol
  | .floatOperator target op =>
    target ++ utf8 ": " ++ op.symbol ++ utf8 " on floats goes through the runtime"
  | .divisionRegisters op dst src =>
    utf8 "x86_64: " ++ op.symbol ++ utf8 " needs dst=rax and src outside rax/rdx, got " ++ dst ++
      utf8 ", " ++ src
  | .powerRegisters target scratch dst src =>
    target ++ utf8 ": ** needs distinct registers outside " ++ scratch ++ utf8 ", got " ++ dst ++
      utf8 ", " ++ src
  | .reported message => message

inductive Failure where
  | overflow (buffer : Text) (needed available : Nat)
  | rejected (buffer : Text) (cause : Rejection)
  deriving DecidableEq, Repr

def Failure.message : Failure → Text
  | .overflow buffer needed available =>
    utf8 "buffer overflow: " ++ buffer ++ utf8 " buffer needs " ++ Text.decimal needed ++
      utf8 " bytes, page holds " ++ Text.decimal available
  | .rejected buffer cause => buffer ++ utf8 " buffer: " ++ cause.message

inductive Misuse where
  | committed (buffer : Text)
  | bounds (low high : Int)
  | index (i length : Nat)
  | zeroAlignment
  deriving DecidableEq, Repr

def Misuse.message : Misuse → Text
  | .committed buffer => utf8 "Buffer(" ++ buffer ++ utf8 "): Cannot write to committed buffer"
  | .bounds low high =>
    utf8 "runtime error: slice bounds out of range [" ++ Text.signed low ++ utf8 ":" ++
      Text.signed high ++ utf8 "]"
  | .index i length =>
    utf8 "runtime error: index out of range [" ++ Text.decimal i ++ utf8 "] with length " ++
      Text.decimal length
  | .zeroAlignment => utf8 "runtime error: integer divide by zero"

end OnePass
