import FalseLang.Code.Render
import FalseLang.Device.Error

/-
  Events: what a log of reading and running a program records.
-/

namespace FalseLang

/-- How much an event matters, the least first. -/
inductive Level where
  | trace
  | debug
  | warn
  deriving DecidableEq, Repr

/-- The rank of a level: a log keeps the events from some rank on. -/
def Level.rank : Level → Nat
  | .trace => 0
  | .debug => 1
  | .warn => 2

def Level.name : Level → String
  | .trace => "TRACE"
  | .debug => "DEBUG"
  | .warn => "WARN"

/-- Something that a log records. -/
inductive Event where
  /-- A character without a meaning is passed over. -/
  | skipped (line : Nat) (c : Char)
  /-- The source text is read as a number of tokens. -/
  | tokenized (count : Nat)
  /-- A closing bracket that closes nothing has ended the program; the line is
  that of the first token behind it. -/
  | endedEarly (line : Nat)
  /-- The tokens are a program with a number of instructions. -/
  | parsed (count : Nat)
  /-- A quotation of some length is about to be pushed on a stack of some depth. -/
  | quoting (line depth length : Nat)
  /-- An operation is about to be performed on a stack of some depth. -/
  | performing (line depth : Nat) (op : Op)
  | loopFinished (line iterations : Nat)
  /-- The input has failed, which the program sees as its end. -/
  | inputFailed (line : Nat) (error : DeviceError)
  /-- The program has ended with a stack of some depth. -/
  | finished (depth : Nat)
  deriving DecidableEq, Repr

namespace Event

/-- How much an event matters. -/
def level : Event → Level
  | .skipped .. => .trace
  | .tokenized _ => .debug
  | .endedEarly _ => .warn
  | .parsed _ => .debug
  | .quoting .. => .trace
  | .performing .. => .trace
  | .loopFinished .. => .trace
  | .inputFailed .. => .debug
  | .finished _ => .debug

def message : Event → String
  | .skipped .. => "skipping unrecognized input"
  | .tokenized _ => "tokenized program"
  | .endedEarly _ => "unmatched ']' ends the program; the rest is ignored"
  | .parsed _ => "parsed program"
  | .quoting .. => "push quotation"
  | .performing _ _ op => "exec " ++ op.text
  | .loopFinished .. => "loop finished"
  | .inputFailed .. => "input device failed; pushing -1"
  | .finished _ => "program finished"

/-- The named details of an event. -/
def fields : Event → List (String × String)
  | .skipped line c => [("line", toString line), ("ignored", String.singleton c)]
  | .tokenized count => [("tokens", toString count)]
  | .endedEarly line => [("line", toString line)]
  | .parsed count => [("instructions", toString count)]
  | .quoting line depth length =>
    [("line", toString line), ("depth", toString depth), ("len", toString length)]
  | .performing line depth _ => [("line", toString line), ("depth", toString depth)]
  | .loopFinished line iterations =>
    [("line", toString line), ("iterations", toString iterations)]
  | .inputFailed line error => [("line", toString line), ("error", error.message)]
  | .finished depth => [("depth", toString depth)]

/-- Whether a log that starts at some level keeps an event. -/
def isKept (least : Level) (e : Event) : Bool := least.rank ≤ e.level.rank

end Event

end FalseLang
