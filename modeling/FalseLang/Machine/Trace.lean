import FalseLang.Event
import FalseLang.Machine

/-
  Traces: the events of a run.

  The events of a step are read off the machine before the step, and the run
  itself knows nothing of them. So a traced run and a plain one are the same run,
  which `trace_fst` states.
-/

namespace FalseLang

namespace Machine

/-- What is recorded when an instruction is reached. -/
def reached (c : Context) : Instruction → Event
  | .op line o => .performing line c.stack.length o
  | .quotation line body => .quoting line c.stack.length body.length

/-- What is recorded when the input fails while an instruction reads from it. -/
def inputFailure (c : Context) : Instruction → Option Event
  | .op line (.primitive .readChar) =>
    match c.output.flush, c.input.readChar with
    | .ok .., .error e _ => some (.inputFailed line e)
    | _, _ => none
  | _ => none

/-- What is recorded when the running code ends. -/
def ending (c : Context) : List Frame → Option Event
  | .test loop _ :: _ =>
    match Action.popBool '#' c with
    | .ok false _ => some (.loopFinished loop.line loop.iterations)
    | _ => none
  | _ => none

/-- The events of the step that a machine is about to take. -/
def events : Machine → List Event
  | ⟨c, [], frames⟩ => (ending c frames).toList
  | ⟨c, i :: _, _⟩ => reached c i :: (inputFailure c i).toList

/-- Run a machine and put the events that a log keeps behind those it has. -/
def trace (least : Level) (log : Array Event) : Nat → Machine → Option (Outcome × Array Event)
  | 0, _ => none
  | n + 1, m =>
    let log := log ++ m.events.filter (Event.isKept least)
    match m.step with
    | .running next => trace least log n next
    | .ended outcome => some (outcome, log)

/-- A traced run ends as the plain one does. -/
theorem trace_fst (least : Level) (log : Array Event) (n : Nat) (m : Machine) :
    (m.trace least log n).map Prod.fst = m.run n := by
  induction n generalizing log m with
  | zero => rfl
  | succ n ih =>
    cases h : m.step with
    | running next => simp only [trace, run, h, ih]
    | ended outcome => simp only [trace, run, h, Option.map_some]

end Machine

end FalseLang
