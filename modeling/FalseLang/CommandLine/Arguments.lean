import FalseLang.Context

/-
  Arguments: what a command line asks for.

  Arguments are read from left to right. An option that takes a value takes it
  from the same argument or from the next one, which must then not look like an
  option. No option may be given twice. Asking for the version or for help ends
  the reading at once, and only errors to the left of it count. Exactly one
  program, a file or a text, must be left in the end.
-/

namespace FalseLang.CommandLine

/-- Why a command line is refused. -/
inductive UsageError where
  | unknownOption (name : String)
  | repeatedOption (name : String)
  /-- An option that takes a value has none. -/
  | missingValue (name : String)
  /-- An option that takes no value has one. -/
  | unexpectedValue (name : String)
  /-- The nesting limit is not a number of 64 bits. -/
  | invalidNumber (text : String)
  | unexpectedFile (path : String)
  | emptyFileName
  | noProgram
  | twoPrograms
  deriving DecidableEq, Repr

/-- What is wrong with a command line, as a sentence. -/
def UsageError.message : UsageError → String
  | .unknownOption name => "unexpected argument '" ++ name ++ "' found"
  | .repeatedOption name => "the argument '" ++ name ++ "' cannot be used multiple times"
  | .missingValue name => "a value is required for '" ++ name ++ "' but none was supplied"
  | .unexpectedValue name => "unexpected value for '" ++ name ++ "' found; no more were expected"
  | .invalidNumber text => "invalid value '" ++ text ++ "' for '--max-depth'"
  | .unexpectedFile path => "unexpected argument '" ++ path ++ "' found"
  | .emptyFileName => "a value is required for '[FILE]' but none was supplied"
  | .noProgram => "the following required arguments were not provided: <FILE|--code <TEXT>>"
  | .twoPrograms => "the argument '[FILE]' cannot be used with '--code <TEXT>'"

/-- Where a program comes from. -/
inductive ProgramSource where
  | file (path : String)
  | text (code : String)
  deriving DecidableEq, Repr

/-- How a program is to be run. -/
structure Settings where
  source : ProgramSource
  printStack : Bool := false
  limit : Nat := defaultLimit
  deriving DecidableEq, Repr

/-- What a command line asks for. -/
inductive Request where
  | run (settings : Settings)
  | version
  | help
  deriving DecidableEq, Repr

/-- What the arguments read so far have given. -/
structure Given where
  file : Option String := none
  code : Option String := none
  printStack : Bool := false
  limit : Option Nat := none
  deriving DecidableEq, Repr

/-- The options that take no value. -/
inductive Switch where
  | printStack
  | version
  | help

/-- The options that take a value. -/
inductive Parameter where
  | code
  | limit

def Parameter.name : Parameter → String
  | .code => "--code"
  | .limit => "--max-depth"

/-- A number without a sign, or with a plus, that fits into 64 bits. -/
def number? (text : String) : Option Nat :=
  let digits := match text.toList with
    | '+' :: rest => rest
    | whole => whole
  if digits.isEmpty || !digits.all Char.isDigit then none
  else
    let n := Integer.ofDigits digits
    if n ≤ 18446744073709551615 then some n else none

namespace Given

def withFile (g : Given) (path : String) : Except UsageError Given :=
  if path.isEmpty then .error .emptyFileName
  else if g.file.isSome then .error (.unexpectedFile path)
  else .ok { g with file := some path }

def withValue (g : Given) (value : String) : Parameter → Except UsageError Given
  | .code =>
    if g.code.isSome then .error (.repeatedOption Parameter.code.name)
    else .ok { g with code := some value }
  | .limit =>
    match number? value with
    | none => .error (.invalidNumber value)
    | some n =>
      if g.limit.isSome then .error (.repeatedOption Parameter.limit.name)
      else .ok { g with limit := some n }

/-- The request that is made once all arguments are read. -/
def request (g : Given) : Except UsageError Request :=
  let settings (source : ProgramSource) : Settings :=
    { source, printStack := g.printStack, limit := g.limit.getD defaultLimit }
  match g.file, g.code with
  | some path, none => .ok (.run (settings (.file path)))
  | none, some text => .ok (.run (settings (.text text)))
  | none, none => .error .noProgram
  | some _, some _ => .error .twoPrograms

end Given

/-- What an argument is by its looks. -/
inductive Shape where
  /-- Two dashes alone: all that follows are names of files. -/
  | separator
  /-- Two dashes, a name, and perhaps a value behind an equals sign. -/
  | long (name : String) (value : Option String)
  /-- A dash and one or more letters. -/
  | short (letters : List Char)
  /-- Anything else, a lone dash included. -/
  | plain

def shapeOf (argument : String) : Shape :=
  match argument.toList with
  | ['-', '-'] => .separator
  | '-' :: '-' :: text =>
    let name := String.ofList (text.takeWhile (· != '='))
    match text.dropWhile (· != '=') with
    | [] => .long name none
    | _ :: value => .long name (some (String.ofList value))
  | '-' :: c :: rest => .short (c :: rest)
  | _ => .plain

/-- Whether an argument can be the value of the option before it. -/
def isValue (argument : String) : Bool :=
  match shapeOf argument with
  | .plain => true
  | _ => false

/-- What reading one argument leads to. -/
inductive Progress where
  | more (given : Given)
  /-- The next argument is the value of a parameter. -/
  | wants (given : Given) (parameter : Parameter)
  | stop (request : Request)

def switch (g : Given) : Switch → Except UsageError Progress
  | .printStack =>
    if g.printStack then .error (.repeatedOption "--print-stack")
    else .ok (.more { g with printStack := true })
  | .version => .ok (.stop .version)
  | .help => .ok (.stop .help)

/-- The option that a long name stands for. -/
def longOption? : String → Option (Switch ⊕ Parameter)
  | "code" => some (.inr .code)
  | "max-depth" => some (.inr .limit)
  | "print-stack" => some (.inl .printStack)
  | "version" => some (.inl .version)
  | "help" => some (.inl .help)
  | _ => none

/-- The option that a letter stands for. -/
def shortOption? : Char → Option (Switch ⊕ Parameter)
  | 'c' => some (.inr .code)
  | 'p' => some (.inl .printStack)
  | 'V' => some (.inl .version)
  | 'h' => some (.inl .help)
  | _ => none

/-- Read an option that is given by its long name. -/
def readLong (g : Given) (name : String) (value : Option String) : Except UsageError Progress :=
  match longOption? name, value with
  | none, _ => .error (.unknownOption ("--" ++ name))
  | some (.inl s), none => switch g s
  | some (.inl _), some _ => .error (.unexpectedValue ("--" ++ name))
  | some (.inr p), none => .ok (.wants g p)
  | some (.inr p), some v => (g.withValue v p).map .more

/-- Read options that are given by letters behind one dash. A parameter takes
what follows its letter as its value, without an equals sign in between. -/
def readShort (g : Given) : List Char → Except UsageError Progress
  | [] => .ok (.more g)
  | c :: rest =>
    match shortOption? c with
    | none => .error (.unknownOption ("-" ++ String.singleton c))
    | some (.inl s) =>
      match switch g s with
      | .ok (.more g) => readShort g rest
      | other => other
    | some (.inr p) =>
      match rest with
      | [] => .ok (.wants g p)
      | '=' :: value => (g.withValue (String.ofList value) p).map .more
      | value => (g.withValue (String.ofList value) p).map .more

/-- Read one argument. The separator is not read here. -/
def readArgument (g : Given) (argument : String) : Except UsageError Progress :=
  match shapeOf argument with
  | .long name value => readLong g name value
  | .short letters => readShort g letters
  | _ => (g.withFile argument).map .more

/-- Read the arguments from left to right, with those before them already read. -/
def readArguments (g : Given) : List String → Except UsageError Request
  | [] => g.request
  | "--" :: files => files.foldlM Given.withFile g >>= Given.request
  | argument :: rest => do
    match ← readArgument g argument with
    | .more g => readArguments g rest
    | .stop request => return request
    | .wants g parameter =>
      match rest with
      | value :: rest =>
        if isValue value then
          readArguments (← g.withValue value parameter) rest
        else
          .error (.missingValue parameter.name)
      | [] => .error (.missingValue parameter.name)

/-- What a command line asks for. -/
def Request.ofArguments (arguments : List String) : Except UsageError Request :=
  readArguments {} arguments

end FalseLang.CommandLine
