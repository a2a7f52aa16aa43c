import OnePass.Compiler.Generator
import OnePass.Page
import OnePass.Token.Lexer

/-!
# Compilation

One expression becomes one function: the code of the expression between a prologue and an epilogue,
with the value in the result register. What goes wrong with the tokens is reported before what goes
wrong with the buffers.
-/

set_option autoImplicit false

namespace OnePass

namespace Generate

def atEnd : Generate Diagnostic Unit := do
  let token ← peek
  match token.lexeme with
  | .endOfInput => return ()
  | .illegal reason => throw (.ofGrammar reason token.location)
  | _ => throw (.unexpected (utf8 "an operator or end of input") token)

def popResult (l : Linkage) (ty : Ty) : Generate Imbalance Unit :=
  if ty.isFloat then popFloat l.roles.floatResult else popInt l.roles.result

def function (l : Linkage) : Production := do
  emit .prologue
  let ty ← here fun levels => expression l (unary l levels)
  atEnd
  balanced (validate 1 (utf8 "end of expression"))
  balanced (popResult l ty)
  balanced (validate 0 (utf8 "epilogue"))
  emit .epilogue
  return ty

end Generate

/-- What a compilation ends with. The buffers hold what was emitted also when it fails. -/
structure Compilation where
  outcome : Except Diagnostic Ty
  emission : Emission
  generator : Generator

def compileTokens (target : Target) (symbols : Symbols) (tokens : List Token) (code data : Buffer)
    (verbose : Bool := true) : Compilation :=
  match Generate.function ⟨target.roles, symbols⟩ (.start tokens) with
  | .error d g => ⟨.error d, Emission.performAll target { code, data, verbose } g.actions, g⟩
  | .ok ty g =>
    let e := Emission.performAll target { code, data, verbose } g.actions
    match e.failure? with
    | some f => ⟨.error (.ofCodegen (.buffer f)), e, g⟩
    | none =>
      let summary := Event.compiled tokens.length e.code.offset e.data.offset g.stack.maxDepth ty
      ⟨.ok ty, e.onCode (·.note summary), g⟩

inductive Error where
  | diagnostic (d : Diagnostic)
  | noTarget (arch : Arch)
  | notExecutable (arch : Arch) (host : Platform)
  | page (fault : PageFault)
  | pageBuffer (buffer : Text) (fault : PageFault)
  | released
  | notCallable
  | crashed
  deriving DecidableEq, Repr

def Error.message : Error → Text
  | .diagnostic d => d.text
  | .noTarget arch => utf8 "no backend for architecture " ++ Text.quoted arch.name
  | .notExecutable arch host =>
    utf8 "code cannot be executed on this host: " ++ arch.name ++ utf8 " code on " ++ host.fullText
  | .page fault => fault.message
  | .pageBuffer buffer fault => buffer ++ utf8 " buffer: " ++ fault.message
  | .released => utf8 "function has been released"
  | .notCallable => OnePass.notCallable
  | .crashed => utf8 "generated code did not return"

structure Build (α : Type) where
  outcome : Except Error α
  trace : Trace := #[]

end OnePass
