import FalseLang.CommandLine.Arguments
import FalseLang.CommandLine.FileSystem
import FalseLang.Program

/-
  The command line: from arguments, files and the standard input to the exit
  code and the two texts that a call of the program leaves.

  `respond` is the whole call. What it is made of is also used one by one where
  the input is read and the output is shown while the program runs.
-/

namespace FalseLang.CommandLine

/-- What a call of the program leaves behind. -/
structure Report where
  code : Nat := 0
  output : List UInt8 := []
  errors : String := ""

def versionText : String := "falsey 0.1.0\n"

def helpText : String :=
  String.intercalate "\n"
    ["falsey interprets programs written in the FALSE stack language",
     "",
     "Usage: falsey [OPTIONS] <FILE|--code <TEXT>>",
     "",
     "Arguments:",
     "  [FILE]  File that contains the program",
     "",
     "Options:",
     "  -c, --code <TEXT>            Program text given inline instead of a file",
     "  -p, --print-stack            Print the stack after the program finishes",
     "      --max-depth <MAX_DEPTH>  Maximum nesting of running quotations [default: 100000]",
     "  -h, --help                   Print help",
     "  -V, --version                Print version",
     ""]

/-- The report on a command line that is refused. -/
def refused (e : UsageError) : Report :=
  { code := 2, errors := "error: " ++ e.message ++ "\n" }

/-- The report on a text that is only shown. -/
def shown (text : String) : Report := { output := Utf8.encode text.toList }

/-- The report on a file that cannot be read. -/
def unreadable (path : String) (e : FileError) : Report :=
  { code := 1
    errors := "Failed to read the input file '" ++ path ++ "': " ++ e.message ++ "\n" }

/-- The text of a program, where files are read by the given function. -/
def programText (read : String → Except FileError (List UInt8)) :
    ProgramSource → Except Report String
  | .text code => .ok code
  | .file path =>
    match read path with
    | .error e => .error (unreadable path e)
    | .ok bytes =>
      match Utf8.decode? bytes with
      | some text => .ok (String.ofList text)
      | none => .error (unreadable path .notText)

/-- The context that a program starts in. -/
def Settings.context (s : Settings) (input : Input) : Context := { input, limit := s.limit }

/-- What is left to be said when a program has ended, its own output apart. -/
def conclusion (s : Settings) (r : Run) : Report :=
  match r.result with
  | .error f => { code := 1, errors := f.message ++ "\n" }
  | .ok () =>
    if s.printStack then shown ("Stack: " ++ r.context.stack.display ++ "\n") else {}

/-- Run a program with the given settings. -/
def runProgram (steps : Nat) (read : String → Except FileError (List UInt8)) (input : Input)
    (s : Settings) : Option Report :=
  match programText read s.source with
  | .error report => some report
  | .ok text =>
    (runSource steps text (s.context input)).map fun r =>
      let last := conclusion s r
      { last with output := r.context.output.written.toList ++ last.output }

/-- What a call with some arguments leaves behind, in at most the given number
of steps. -/
def respond (steps : Nat) (read : String → Except FileError (List UInt8)) (input : Input)
    (arguments : List String) : Option Report :=
  match Request.ofArguments arguments with
  | .error e => some (refused e)
  | .ok .version => some (shown versionText)
  | .ok .help => some (shown helpText)
  | .ok (.run settings) => runProgram steps read input settings

end FalseLang.CommandLine
