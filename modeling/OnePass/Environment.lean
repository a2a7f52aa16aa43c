import OnePass.Path

/-!
# Environments

The variables of a process. An empty value counts as none.
-/

set_option autoImplicit false

namespace OnePass

abbrev Environment := List (Text × Text)

namespace Environment

def get (env : Environment) (name : Text) : Text :=
  ((env.find? fun v => v.1 = name).map Prod.snd).getD []

def get? (env : Environment) (name : Text) : Option Text :=
  if env.get name = [] then none else some (env.get name)

def affirmations : List Text :=
  ["absolutely", "affirmative", "enable", "enabled", "positive", "t", "true", "y", "yes"].map utf8

def upperByte (b : UInt8) : UInt8 := if 0x61 ≤ b && b ≤ 0x7a then b - 0x20 else b

def spellings (word : Text) : List Text :=
  [word, word.map upperByte, (word.take 1).map upperByte ++ word.drop 1]

def isAffirmative (value : Text) : Bool :=
  value = utf8 "1" || (affirmations.flatMap spellings).contains value

def enabled (env : Environment) (name : Text) : Bool := isAffirmative (env.get name)

def user (env : Environment) : Text :=
  (((env.get? (utf8 "LOGNAME")).or (env.get? (utf8 "USER"))).getD (utf8 "user"))

def home (env : Environment) : Text :=
  match env.get? (utf8 "HOME") with
  | some folder => folder
  | none => if env.user = utf8 "root" then utf8 "/root" else utf8 "/home/" ++ env.user

end Environment

end OnePass
