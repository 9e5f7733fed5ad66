import FalseLang.CommandLine

/-
  The program: the command line on the real files, input and output.

  Everything is decided by `CommandLine` and `Machine`. This module reads and
  writes bytes: before a step that reads a character it shows what the program
  has written so far and fetches as many bytes as the character has.
-/

namespace FalseLang.CommandLine

/-- The bytes that were delivered and not yet read. -/
def buffered (i : Input) : List UInt8 :=
  i.deliveries.flatMap fun
    | .bytes bytes => bytes
    | _ => []

/-- Whether a character may need bytes that were not delivered yet. -/
def needsBytes (i : Input) : Bool :=
  match buffered i with
  | [] => true
  | first :: rest => rest.length + 1 < (Utf8.width? first).getD 1

/-- Whether the next step reads a character. -/
def awaitsInput (m : Machine) : Bool :=
  match m.code with
  | .op _ (.primitive .readChar) :: _ => true
  | _ => false

/-- Write bytes to a stream at once. -/
def emit (stream : IO.FS.Stream) (bytes : Array UInt8) : IO Unit := do
  stream.write ⟨bytes⟩
  stream.flush

/-- Fetch bytes until the input has a whole character or has ended. -/
partial def fetch (stdin : IO.FS.Stream) (i : Input) : IO Input := do
  if !needsBytes i then return i
  let more ← stdin.read 1
  if more.isEmpty then return i
  fetch stdin { i with deliveries := [.bytes (buffered i ++ more.data.toList)] }

/-- Run a machine to its end. Of its output the first bytes are shown already. -/
partial def drive (stdin stdout : IO.FS.Stream) (shownBytes : Nat) (m : Machine) :
    IO (Outcome × Nat) := do
  if awaitsInput m then
    let written := m.context.output.written
    emit stdout (written.extract shownBytes written.size)
    let input ← fetch stdin m.context.input
    step written.size { m with context := { m.context with input } }
  else
    step shownBytes m
where
  step (shownBytes : Nat) (m : Machine) : IO (Outcome × Nat) := do
    match m.step with
    | .ended outcome => return (outcome, shownBytes)
    | .running next => drive stdin stdout shownBytes next

/-- Whether the system gave an error the number `n`. Some calls give it negated. -/
def isNumbered (code n : UInt32) : Bool := code == n || code == 0 - n

/-- The file error that an error of the system stands for. -/
def fileError : IO.Error → FileError
  | .noFileOrDirectory .. => .notFound
  | e@(.inappropriateType _ code _) =>
    if isNumbered code 20 then .notDirectory
    else if isNumbered code 21 then .isDirectory
    else .other (toString e)
  | e@(.invalidArgument _ code _) =>
    if isNumbered code 36 then .nameTooLong else .other (toString e)
  | e => .other (toString e)

def readFile (path : String) : IO (Except FileError (List UInt8)) := do
  try
    let bytes ← IO.FS.readBinFile path
    return .ok bytes.data.toList
  catch e =>
    return .error (fileError e)

/-- Run a program on the standard streams. -/
def runOnStreams (s : Settings) : IO Report := do
  let read ← match s.source with
    | .file path => readFile path
    | .text _ => pure (.error .notFound)
  match programText (fun _ => read) s.source with
  | .error report => return report
  | .ok text =>
    match parse text with
    | .error e => return conclusion s ⟨.error (.parse e), s.context {}⟩
    | .ok code =>
      let stdout ← IO.getStdout
      let (outcome, shownBytes) ← drive (← IO.getStdin) stdout 0 ⟨s.context {}, code, []⟩
      let written := outcome.context.output.written
      emit stdout (written.extract shownBytes written.size)
      return conclusion s (Run.ofOutcome outcome)

/-- The report on a call with some arguments. -/
def call (arguments : List String) : IO Report := do
  match Request.ofArguments arguments with
  | .error e => return refused e
  | .ok .version => return shown versionText
  | .ok .help => return shown helpText
  | .ok (.run settings) => runOnStreams settings

end FalseLang.CommandLine

def main (arguments : List String) : IO UInt32 := do
  let report ← FalseLang.CommandLine.call arguments
  FalseLang.CommandLine.emit (← IO.getStdout) report.output.toArray
  (← IO.getStderr).putStr report.errors
  return UInt32.ofNat report.code
