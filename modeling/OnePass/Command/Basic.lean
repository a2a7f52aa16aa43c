import OnePass.Flags
import OnePass.Function
import OnePass.Settings.Basic

/-!
# Commands

What a command line asks for, what a command writes, and how it can fail.
-/

set_option autoImplicit false

namespace OnePass

inductive Channel where
  | result
  | message
  | trace
  deriving DecidableEq, Repr

abbrev Output := List (Channel × Text)

namespace Output

def results (s : Text) : Output := [(.result, s)]

def messages (s : Text) : Output := [(.message, s)]

def traces (s : Text) : Output := [(.trace, s)]

def on (o : Output) (p : Channel → Bool) : Text := (o.filter fun c => p c.1).flatMap Prod.snd

end Output

def versionText : Text := utf8 "jitexpr 1.0.0"

inductive Command where
  | run (source : Text)
  | runNothing
  | session
  | dump (arguments : List Text)
  | help
  | version
  deriving DecidableEq, Repr

/-- The command that arguments ask for. Arguments that name no command are an expression. -/
def Command.ofArguments : List Text → Command
  | [] => .session
  | word :: rest =>
    if word = utf8 "run" then
      if rest = [] then .runNothing else .run (Text.join (utf8 " ") rest)
    else if word = utf8 "repl" then .session
    else if word = utf8 "dump" then .dump rest
    else if (["help", "--help", "-h"].map utf8).contains word then .help
    else if (["version", "--version", "-V"].map utf8).contains word then .version
    else .run (Text.join (utf8 " ") (word :: rest))

inductive CommandError where
  | build (e : Error)
  | noExpressionToRun
  | noExpressionToDump
  | flags (fault : FlagFault)
  | settings (fault : Settings.Fault)
  | unknownFormat (name : Text)
  | file (fault : FileFault)
  deriving Repr

namespace CommandError

def message : CommandError → Text
  | .build e => e.message
  | .noExpressionToRun => utf8 "usage: jitexpr run <expression>"
  | .noExpressionToDump =>
    utf8 "usage: jitexpr dump [-arch A] [-out FILE] [-format hex|cbor] <expression>"
  | .flags fault => fault.message
  | .settings fault => fault.message
  | .unknownFormat name => utf8 "unknown dump format " ++ Text.quoted name ++ utf8 " (hex, cbor)"
  | .file fault => fault.message

def report (color : Bool) (e : CommandError) : Text :=
  match e with
  | .build (.diagnostic d) => d.format color
  | e => utf8 "Error: " ++ e.message ++ utf8 "\n"

end CommandError

/-- How a command ends. Writing a file is the last thing a command does, so it is left to whoever
runs the command; the note is for when it succeeds. -/
inductive Ending where
  | done
  | failed (e : CommandError)
  | save (path : Text) (content : Bytes) (note : Output)
  deriving Repr

namespace Ending

def file? : Ending → Option (Text × Bytes)
  | .save path content _ => some (path, content)
  | _ => none

def settle (written : Except FileFault Unit) : Ending → Output × Option CommandError
  | .done => ([], none)
  | .failed e => ([], some e)
  | .save _ _ note =>
    match written with
    | .ok () => (note, none)
    | .error fault => ([], some (.file fault))

end Ending

structure Context where
  host : Host
  settings : Settings
  input : Text := []

def helpText : Text :=
  versionText ++ utf8 (" - compile expressions to native code and run them\n" ++
    "\n" ++
    "Usage:\n" ++
    "  jitexpr [flags] <expression>       compile and run\n" ++
    "  jitexpr [flags] run <expression>   compile and run\n" ++
    "  jitexpr [flags] repl               interactive prompt (also with no arguments)\n" ++
    "  jitexpr [flags] dump [-arch A] [-out FILE] [-format hex|cbor] <expression>\n" ++
    "  jitexpr version\n" ++
    "\n" ++
    "Flags:\n" ++
    "  -arch A          target architecture (amd64, arm64)\n" ++
    "  -code-size SIZE  code page size, e.g. 64KiB\n" ++
    "  -data-size SIZE  data page size\n" ++
    "  -v, -verbose     trace emitted instructions\n" ++
    "  -no-color        plain error output\n" ++
    "\n" ++
    "Environment:\n" ++
    "  JITEXPR_CONFIG, JITEXPR_ARCH, JITEXPR_CODE_SIZE, JITEXPR_DATA_SIZE,\n" ++
    "  JITEXPR_VERBOSE, JITEXPR_HISTORY, NO_COLOR\n" ++
    "\n" ++
    "Examples:\n" ++
    "  jitexpr '(10 - 2) * 5'\n" ++
    "  jitexpr \"'foo' + 'bar'\"\n" ++
    "  jitexpr dump -arch arm64 '2 ** 10'\n")

end OnePass
