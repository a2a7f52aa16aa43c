import OnePass.Command.Dump
import OnePass.Session
import OnePass.Settings.Load

/-!
# The program

The whole program as a function of what it is started with. Settings come from a file, the
environment and the flags, in this order, and then the command is run.
-/

set_option autoImplicit false

namespace OnePass

namespace Command

def runExpression (c : Context) (source : Text) : Output × Ending :=
  let b := (evaluate c.host c.settings.arch c.settings.sizes source {} c.settings.verbose).1
  let trace := Output.traces b.trace.text
  match b.outcome with
  | .error e => (trace, .failed (.build e))
  | .ok v => (trace ++ Output.results (v.text ++ utf8 "\n"), .done)

def perform (c : Context) : Command → Output × Ending
  | .run source => runExpression c source
  | .runNothing => ([], .failed .noExpressionToRun)
  | .session => (Session.run c, .done)
  | .dump arguments => Dump.run c arguments
  | .help => (Output.results helpText, .done)
  | .version => (Output.results (versionText ++ utf8 "\n"), .done)

end Command

namespace Program

structure Start where
  host : Host
  arguments : List Text := []
  environment : Environment := []
  file : Except FileFault Bytes
  input : Text := []

/-- How the program ends: with a status, or with a command whose end may depend on a file. -/
inductive Finish where
  | status (n : Nat)
  | command (color : Bool) (ending : Ending)
  deriving Repr

def success : Nat := 0

def failure : Nat := 1

def misuse : Nat := 2

def flagSet (arch : Arch) : FlagSet where
  command := utf8 "jitexpr"
  flags :=
    [⟨utf8 "V", .switch, utf8 "print version information and exit"⟩,
      ⟨utf8 "arch", .text arch.shortName, utf8 "target architecture (amd64, arm64)"⟩,
      ⟨utf8 "code-size", .text [], utf8 "code page size (e.g. 64KiB)"⟩,
      ⟨utf8 "data-size", .text [], utf8 "data page size (e.g. 16KiB)"⟩,
      ⟨utf8 "no-color", .switch, utf8 "disable colored error output"⟩,
      ⟨utf8 "v", .switch, utf8 "verbose mode (trace emitted instructions)"⟩,
      ⟨utf8 "verbose", .switch, utf8 "verbose mode (trace emitted instructions)"⟩,
      ⟨utf8 "version", .switch, utf8 "print version information and exit"⟩]

def withFlag (p : ParsedFlags) (name : Text)
    (set : Settings → Text → Except Settings.Fault Settings)
    (acc : Settings × List Settings.Fault) : Settings × List Settings.Fault :=
  match p.text? name with
  | none => acc
  | some value =>
    match set acc.1 value with
    | .ok s => (s, acc.2)
    | .error fault => (acc.1, acc.2 ++ [fault])

def applyFlags (p : ParsedFlags) (s : Settings) : Settings × List Settings.Fault :=
  let (s, faults) := withFlag p (utf8 "data-size") Settings.setDataSize
    (withFlag p (utf8 "code-size") Settings.setCodeSize
      (withFlag p (utf8 "arch") Settings.setArch (s, [])))
  let color := ((p.switch? (utf8 "no-color")).map not).getD s.color
  let verbose :=
    if (p.switch? (utf8 "v")).isSome || (p.switch? (utf8 "verbose")).isSome then
      p.isOn (utf8 "v") || p.isOn (utf8 "verbose")
    else s.verbose
  ({ s with color, verbose }, faults)

def refusal (reasons : List Text) : Output :=
  Output.messages (utf8 "Error: " ++ Text.join (utf8 "\n") reasons ++ utf8 "\n")

def banner (s : Settings) : Output :=
  if s.verbose then
    Output.messages
      (utf8 "----=[ " ++ versionText ++ utf8 " ]=----\nconfig: " ++ s.text ++ utf8 "\n")
  else []

inductive Plan where
  | stop (o : Output) (status : Nat)
  | proceed (s : Settings) (command : Command)

def plan (start : Start) : Plan :=
  match Settings.load start.host.platform start.environment start.file with
  | .error fault => .stop (refusal [fault.message]) failure
  | .ok s =>
    let fs := flagSet s.arch
    match fs.parse start.arguments with
    | .error fault =>
      .stop (Output.messages (fs.complaint fault))
        (if fault = .helpRequested then success else misuse)
    | .ok p =>
      if p.isOn (utf8 "version") || p.isOn (utf8 "V") then
        .stop (Output.results (versionText ++ utf8 "\n")) success
      else
        let (s, faults) := applyFlags p s
        if faults = [] then .proceed s (.ofArguments p.rest)
        else .stop (refusal (faults.map Settings.Fault.message)) failure

def run (start : Start) : Output × Finish :=
  match plan start with
  | .stop o status => (o, .status status)
  | .proceed s command =>
    let (o, ending) := command.perform { host := start.host, settings := s, input := start.input }
    (banner s ++ o, .command s.color ending)

namespace Finish

def file? : Finish → Option (Text × Bytes)
  | .status _ => none
  | .command _ ending => ending.file?

def settle (written : Except FileFault Unit) : Finish → Output × Nat
  | .status n => ([], n)
  | .command color ending =>
    match ending.settle written with
    | (o, none) => (o, success)
    | (o, some e) => (o ++ Output.messages (e.report color), failure)

end Finish

end Program

end OnePass
