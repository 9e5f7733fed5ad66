import FalseLang.Machine.Trace

/-
  Programs: reading a source text and running it in a context.

  A text that cannot be read is not run at all. `logSource` runs a text as
  `runSource` does and records the events of both stages.
-/

namespace FalseLang

/-- Why a program did not reach its end. -/
inductive Failure where
  | parse (error : ParseError)
  | runtime (error : RuntimeError)
  deriving DecidableEq, Repr

namespace Failure

def line : Failure → Nat
  | .parse e => e.line
  | .runtime e => e.line

def message : Failure → String
  | .parse e => e.message
  | .runtime e => e.message

/-- The texts of what caused a failure, from the failure itself inwards. -/
def causes : Failure → List String
  | .parse e => [e.message]
  | .runtime e =>
    match e.val with
    | .io cause => [e.message, cause.message]
    | _ => [e.message]

end Failure

/-- How reading and running a source text ended, and the context that is left. -/
structure Run where
  result : Except Failure Unit
  context : Context

/-- What a run of parsed code means for the whole. -/
def Run.ofOutcome (o : Outcome) : Run :=
  ⟨o.result.mapError Failure.runtime, o.context⟩

/-- Read a source text and run it, in at most the given number of steps. -/
def runSource (steps : Nat) (source : String) (c : Context) : Option Run :=
  match parse source with
  | .error e => some ⟨.error (.parse e), c⟩
  | .ok code => (c.run steps code).map Run.ofOutcome

/-! ## Logs -/

/-- The events of reading a source text. -/
def readingEvents (source : String) : List Event :=
  let skipped := (unknownChars source).map fun x => Event.skipped x.line x.val
  match tokenize source with
  | .error _ => skipped
  | .ok tokens =>
    let tokenized := skipped ++ [.tokenized tokens.length]
    match parseTokens tokens with
    | .error _ => tokenized
    | .ok parsed =>
      tokenized ++ (parsed.ignored.head?.map fun t => Event.endedEarly t.line).toList
        ++ [.parsed parsed.program.length]

def endingEvents (o : Outcome) : List Event :=
  match o.result with
  | .ok () => [.finished o.context.stack.length]
  | .error _ => []

/-- Read a source text and run it, and log the events from some level on. -/
def logSource (steps : Nat) (least : Level) (source : String) (c : Context) :
    Option (Run × Array Event) :=
  let log := ((readingEvents source).filter (Event.isKept least)).toArray
  match parse source with
  | .error e => some (⟨.error (.parse e), c⟩, log)
  | .ok code =>
    (Machine.trace least log steps ⟨c, code, []⟩).map fun (o, log) =>
      (Run.ofOutcome o, log ++ (endingEvents o).filter (Event.isKept least))

end FalseLang
