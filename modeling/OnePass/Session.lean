import OnePass.Artifact.Listing
import OnePass.Command.Basic
import OnePass.Text.Rune
import OnePass.Token.Lexer

/-!
# Sessions

An interactive session reads lines. A line is blank, a command that starts with a colon, or an
expression. Lines with open parentheses wait for the lines that close them; an interrupt discards
them.
-/

set_option autoImplicit false

namespace OnePass

inductive Reading where
  | line (s : Text)
  /-- The line was given up after the text. -/
  | interrupt (s : Text)
  | bell
  | close
  deriving DecidableEq, Repr

namespace Reading

def interruptByte : UInt8 := 0x03

def closeByte : UInt8 := 0x04

/-- The readings of an input, given the bytes of the current line so far. A line ends at a line
feed or a carriage return, and the last one at the end of the input. -/
def following (current : Text) : Text → List Reading
  | [] => if current = [] then [] else [.line current]
  | b :: rest =>
    if b = 0x0a ∨ b = 0x0d then .line current :: following [] rest
    else if b = interruptByte then .interrupt current :: following [] rest
    else if b = closeByte then if current = [] then [.close] else .bell :: following current rest
    else following (current ++ [b]) rest

/-- The readings of an input. Bytes that are no UTF-8 are read as replacement characters. -/
def ofInput (input : Text) : List Reading := following [] (Text.ofRunes (Text.runes input))

end Reading

inductive SessionCommand where
  | quit
  | help
  | toggleVerbose
  | code (source : Text)
  | unknown (name : Text)
  deriving DecidableEq, Repr

def SessionCommand.parse (line : Text) : SessionCommand :=
  let (name, argument) := Text.cut 0x20 line
  if ([":quit", ":q", ":exit"].map utf8).contains name then .quit
  else if ([":help", ":h"].map utf8).contains name then .help
  else if ([":verbose", ":v"].map utf8).contains name then .toggleVerbose
  else if ([":code", ":c"].map utf8).contains name then .code argument
  else .unknown name

inductive Entry where
  | blank
  | command (c : SessionCommand)
  | unfinished (source : Text)
  | complete (source : Text)
  deriving DecidableEq, Repr

def Entry.ofSource (source : Text) : Entry :=
  let trimmed := Text.trim source
  if trimmed = [] then .blank
  else if trimmed.head? = some 0x3a then .command (SessionCommand.parse trimmed)
  else if hasOpenParen source then .unfinished source
  else .complete source

structure Session where
  /-- The lines that wait for more, each with its line end. -/
  pending : Text := []
  verbose : Bool
  space : AddressSpace := {}
  output : Output := []

namespace Session

def greeting (s : Settings) : Text :=
  versionText ++ utf8 " on " ++ s.arch.name ++ utf8 ". Type :help for help.\n"

def helpText : Text :=
  utf8 ("Enter an expression to compile and run it, for example (1 + 2.5) * 2\n" ++
    "  :help       show this text\n" ++
    "  :code EXPR  show the machine code for EXPR\n" ++
    "  :verbose    toggle instruction tracing\n" ++
    "  :quit       leave (Ctrl-D works too)\n")

def resultMark (color : Bool) : Text := utf8 (if color then "\x1b[31m=\x1b[0m " else "= ")

def start (s : Settings) : Session :=
  { verbose := s.verbose, output := Output.results (greeting s) }

def say (s : Session) (o : Output) : Session := { s with output := s.output ++ o }

def complain (s : Session) (color : Bool) (e : Error) : Session :=
  s.say (Output.messages (CommandError.report color (.build e)))

def evaluate (c : Context) (source : Text) (s : Session) : Session :=
  let (b, space) := OnePass.evaluate c.host c.settings.arch c.settings.sizes source
    s.space s.verbose
  let s := { s with space }.say (Output.traces b.trace.text)
  match b.outcome with
  | .error e => s.complain c.settings.color e
  | .ok v =>
    s.say (Output.results
      (resultMark c.settings.color ++ v.shown ++ utf8 " : " ++ v.ty.name ++ utf8 "\n"))

def showCode (c : Context) (source : Text) (s : Session) : Session :=
  let arch := c.settings.arch
  let b := Artifact.compile arch (c.host.artifactSymbols arch) c.settings.sizes source s.verbose
  let s := s.say (Output.traces b.trace.text)
  match b.outcome with
  | .error e => s.complain c.settings.color e
  | .ok a => s.say (Output.results a.listing)

def perform (c : Context) (command : SessionCommand) (s : Session) : Session × Bool :=
  match command with
  | .quit => (s, false)
  | .help => (s.say (Output.results helpText), true)
  | .toggleVerbose =>
    let verbose := !s.verbose
    ({ s with verbose }.say
      (Output.results (utf8 "verbose " ++ Settings.boolText verbose ++ utf8 "\n")), true)
  | .code source => (s.showCode c source, true)
  | .unknown name =>
    (s.say (Output.messages (utf8 "unknown command " ++ name ++ utf8 ", try :help\n")), true)

def step (c : Context) (reading : Reading) (s : Session) : Session × Bool :=
  match reading with
  | .bell => (s.say (Output.results [0x07]), true)
  | .close => (s, false)
  | .interrupt line =>
    if s.pending = [] ∧ line = [] then (s, false) else ({ s with pending := [] }, true)
  | .line line =>
    match Entry.ofSource (s.pending ++ line) with
    | .blank => (s, true)
    | .command command => s.perform c command
    | .unfinished source => ({ s with pending := source ++ utf8 "\n" }, true)
    | .complete source => ({ s with pending := [] }.evaluate c source, true)

def steps (c : Context) : List Reading → Session → Session × Bool
  | [], s => (s, true)
  | reading :: rest, s =>
    match s.step c reading with
    | (s, true) => steps c rest s
    | (s, false) => (s, false)

def run (c : Context) : Output :=
  (steps c (Reading.ofInput c.input) (start c.settings)).1.output

end Session

end OnePass
