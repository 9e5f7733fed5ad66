import FalseLang.Machine.Perform

/-
  The machine: running code, one instruction at a time.

  A machine holds the context, the code that is running, and one frame for each
  quotation or loop the running code is inside of. A step performs one
  instruction, or finishes a quotation whose code is used up. A run may go on for
  ever, so `run` takes the number of steps it may use; `run_add` says that a run
  which has ended is not changed by more of them. How deep quotations are inside
  each other is counted in the context, and a run that stops early counts back
  frame by frame to what it was at its start.
-/

namespace FalseLang

/-- A loop that is running: the line it is on, its two quotations, and how often
the body has ended. -/
structure Loop where
  line : Nat
  condition : Code
  body : Code
  iterations : Nat := 0

/-- What to do when the code that is running ends. -/
inductive Frame where
  /-- Go on behind the call. -/
  | resume (rest : Code)
  /-- The condition of a loop has run: test what it has left. -/
  | test (loop : Loop) (rest : Code)
  /-- The body of a loop has run: run its condition again. -/
  | again (loop : Loop) (rest : Code)

/-- Code that is running in a context. -/
structure Machine where
  context : Context
  code : Code
  /-- What follows the running code, the innermost frame first. -/
  frames : List Frame := []

/-- How a run ended, and the context it left. -/
structure Outcome where
  result : Except RuntimeError Unit
  context : Context

/-- What a step leads to. -/
inductive Status where
  | running (machine : Machine)
  | ended (outcome : Outcome)

/-- Leave the quotations that the running code is inside of, one after the other. -/
def Context.unwind : List Frame → Context → Context
  | [], c => c
  | _ :: frames, c => unwind frames c.leave

/-- To leave quotations one by one is to take their number off the depth. -/
theorem Context.unwind_eq (frames : List Frame) (c : Context) :
    c.unwind frames = { c with depth := c.depth - frames.length } := by
  induction frames generalizing c with
  | nil => rfl
  | cons frame frames ih =>
    rw [unwind, ih, leave, List.length_cons, Nat.sub_sub, Nat.add_comm]

theorem Context.unwind_append (inner outer : List Frame) (c : Context) :
    c.unwind (inner ++ outer) = (c.unwind inner).unwind outer := by
  induction inner generalizing c with
  | nil => rfl
  | cons frame inner ih => exact ih c.leave

namespace Machine

/-- A run that stops with a fault leaves all quotations it was inside of. -/
def fail (line : Nat) (fault : Fault) (c : Context) (frames : List Frame) : Status :=
  .ended ⟨.error ⟨line, fault⟩, c.unwind frames⟩

/-- Start to run a quotation, with a frame for what follows it. -/
def enter (line : Nat) (body : Code) (frame : Frame) (c : Context) (frames : List Frame) :
    Status :=
  match Action.enter c with
  | .ok () c => .running ⟨c, body, frame :: frames⟩
  | .error fault c => fail line fault c frames

/-- Test what the condition of a loop has left. -/
def test (loop : Loop) (rest : Code) (c : Context) (frames : List Frame) : Status :=
  match Action.popBool '#' c with
  | .ok true c => enter loop.line loop.body (.again loop rest) c frames
  | .ok false c => .running ⟨c, rest, frames⟩
  | .error fault c => fail loop.line fault c frames

def finish (c : Context) : List Frame → Status
  | [] => .ended ⟨.ok (), c⟩
  | .resume rest :: frames => .running ⟨c.leave, rest, frames⟩
  | .test loop rest :: frames => test loop rest c.leave frames
  | .again loop rest :: frames =>
    enter loop.line loop.condition
      (.test { loop with iterations := loop.iterations + 1 } rest) c.leave frames

/-- Perform one instruction and find out what runs next. -/
def advance (i : Instruction) (rest : Code) (c : Context) (frames : List Frame) : Status :=
  match i.perform c with
  | .ok .proceed c => .running ⟨c, rest, frames⟩
  | .ok (.call body) c => enter i.line body (.resume rest) c frames
  | .ok (.loop condition body) c =>
    enter i.line condition (.test ⟨i.line, condition, body, 0⟩ rest) c frames
  | .error fault c => fail i.line fault c frames

def step : Machine → Status
  | ⟨c, [], frames⟩ => finish c frames
  | ⟨c, i :: rest, frames⟩ => advance i rest c frames

/-- Run a machine to its end, in at most the given number of steps. -/
def run : Nat → Machine → Option Outcome
  | 0, _ => none
  | n + 1, m =>
    match m.step with
    | .running next => run n next
    | .ended outcome => some outcome

/-- More steps than it takes do not change how a run ends. -/
theorem run_add {n : Nat} {m : Machine} {outcome : Outcome} (h : m.run n = some outcome)
    (more : Nat) : m.run (n + more) = some outcome := by
  induction n generalizing m with
  | zero => simp [run] at h
  | succ n ih =>
    rw [Nat.add_right_comm]
    unfold run at h ⊢
    split at h
    · exact ih h
    · exact h

/-- An instruction after which nothing else has to run first takes one step. -/
theorem run_proceed {i : Instruction} {rest : Code} {c d : Context} {frames : List Frame}
    (h : i.perform c = .ok .proceed d) (n : Nat) :
    run (n + 1) ⟨c, i :: rest, frames⟩ = run n ⟨d, rest, frames⟩ := by
  simp only [run, step, advance, h]

/-- An instruction that fails ends the run, at its own line. -/
theorem run_fault {i : Instruction} {rest : Code} {c d : Context} {frames : List Frame}
    {fault : Fault} (h : i.perform c = .error fault d) (n : Nat) :
    run (n + 1) ⟨c, i :: rest, frames⟩ =
      some ⟨.error ⟨i.line, fault⟩, d.unwind frames⟩ := by
  simp only [run, step, advance, h, fail]

end Machine

/-- Run code in a context, in at most the given number of steps. -/
def Context.run (steps : Nat) (code : Code) (c : Context) : Option Outcome :=
  Machine.run steps ⟨c, code, []⟩

end FalseLang
