import OnePass.Program

/-!
# Command line

The program with its real arguments, variables, files and streams.
-/

set_option autoImplicit false

namespace OnePass.Main

def variableNames : List String :=
  ["HOME", "LOGNAME", "USER", "JITEXPR_CONFIG", "JITEXPR_ARCH", "JITEXPR_CODE_SIZE",
    "JITEXPR_DATA_SIZE", "JITEXPR_VERBOSE", "JITEXPR_HISTORY", "NO_COLOR"]

def environment : IO Environment :=
  variableNames.filterMapM fun name => do
    return (← IO.getEnv name).map fun value => (utf8 name, utf8 value)

def fileName (path : Text) : String := String.ofList (Text.runes path)

def cause : IO.Error → PathFault
  | .noFileOrDirectory .. => .missing
  | .inappropriateType .. => .isFolder
  | .permissionDenied .. => .other (utf8 "permission denied")
  | e => .other (utf8 (toString e))

def readFile (path : Text) : IO (Except FileFault Bytes) := do
  try
    return .ok (← IO.FS.readBinFile (fileName path)).toList
  catch e =>
    let reason := cause e
    return .error ⟨if reason = .isFolder then .read else .find, path, reason⟩

def writeFile (path : Text) (content : Bytes) : IO (Except FileFault Unit) := do
  try
    IO.FS.writeBinFile (fileName path) ⟨content.toArray⟩
    return .ok ()
  catch e => return .error ⟨.create, path, cause e⟩

def write (o : Output) : IO Unit := do
  for (channel, text) in o do
    let stream ← if channel = .result then IO.getStdout else IO.getStderr
    stream.write ⟨text.toArray⟩
    stream.flush

def completeLines (s : Text) : Text × Text :=
  let rest := (s.reverse.takeWhile (· ≠ Text.newline)).reverse
  (s.take (s.length - rest.length), rest)

/-- Goes on with a session while there is input, given the start of a line. -/
partial def converse (c : Context) (s : Session) (current : Text) : IO Unit := do
  let chunk ← (← IO.getStdin).read 65536
  let (whole, rest) :=
    if chunk.isEmpty then (current, []) else completeLines (current ++ chunk.toList)
  let (s, goesOn) := s.steps c (Reading.ofInput whole)
  write s.output
  if goesOn && !chunk.isEmpty then converse c { s with output := [] } rest

def finish (o : Output) (f : Program.Finish) : IO UInt32 := do
  write o
  let written ← match f.file? with
    | some (path, content) => writeFile path content
    | none => pure (.ok ())
  let (last, status) := f.settle written
  write last
  return UInt32.ofNat status

def run (arguments : List String) : IO UInt32 := do
  let environment ← environment
  let start : Program.Start :=
    { host := { linked := true }, arguments := arguments.map utf8, environment,
      file := ← readFile (Settings.filePath environment) }
  match Program.plan start with
  | .proceed s .session =>
    let session := Session.start s
    write (Program.banner s ++ session.output)
    converse { host := start.host, settings := s } { session with output := [] } []
    return UInt32.ofNat Program.success
  | _ =>
    let (o, f) := Program.run start
    finish o f

end OnePass.Main

def main (arguments : List String) : IO UInt32 := OnePass.Main.run arguments
