import FalseLang.Proofs.Machine.Effects
import FalseLang.Proofs.Machine.Supply

/-
  Blame: every error points at an instruction that can raise it.

  A fault comes from the instruction that is performed, or from a loop that is
  running: the machine keeps the line of the loop in its frames and reports on it
  whatever goes wrong between the condition and the body. So what has to be carried
  along is that this line is the line of a loop of the supply (`Supply.Loops`). One
  step either equips the next machine from the same supply or ends, and an error it
  ends with can be blamed on an instruction of the supply (`Supply.step`);
  `error_blames_instruction` is the result for whole runs.
-/

namespace FalseLang

namespace Supply

variable (S : Supply)

/-- A running loop with the line of a loop of the supply and two bodies of the supply. -/
structure Loops (l : Loop) : Prop where
  line : S.instruction (.op l.line .loop)
  condition : S.body l.condition
  body : S.body l.body

/-- All that a frame keeps belongs to the supply. -/
inductive Frames : Frame → Prop where
  | resume {rest : Code} (code : ∀ i ∈ rest, S.instruction i) : Frames (.resume rest)
  | test {l : Loop} {rest : Code} (loop : S.Loops l) (code : ∀ i ∈ rest, S.instruction i) :
    Frames (.test l rest)
  | again {l : Loop} {rest : Code} (loop : S.Loops l) (code : ∀ i ∈ rest, S.instruction i) :
    Frames (.again l rest)

/-- All that a machine runs, and all it will run, belongs to the supply. -/
structure Equips (m : Machine) : Prop where
  context : S.Stocks m.context
  code : ∀ i ∈ m.code, S.instruction i
  frames : ∀ f ∈ m.frames, S.Frames f

/-- An instruction of the supply stands on the line of the error and can raise its fault. -/
def Blames (limit : Nat) (e : RuntimeError) : Prop :=
  ∃ i, S.instruction i ∧ i.line = e.line ∧ i.Raises limit e.val

/-- What a step leads to belongs to the supply, which has an instruction to blame for an
error. -/
def Reaches (limit : Nat) : Status → Prop
  | .running next => S.Equips next
  | .ended o => S.Stocks o.context ∧ ∀ e, o.result = .error e → S.Blames limit e

variable {S}

/-! ## One step -/

theorem reaches_fail {limit : Nat} {c : Context} {i : Instruction} {fault : Fault}
    (stocked : S.Stocks c) (supplied : S.instruction i) (raised : i.Raises limit fault)
    (frames : List Frame) : S.Reaches limit (Machine.fail i.line fault c frames) := by
  unfold Machine.fail
  rw [c.unwind_eq]
  refine ⟨stocked, fun e failed => ?_⟩
  cases failed
  exact ⟨i, supplied, rfl, raised⟩

/-- Entering a body for an instruction that may meet the nesting limit. -/
theorem reaches_enter {limit : Nat} {c : Context} {i : Instruction} {body : Code} {frame : Frame}
    {frames : List Frame} (stocked : S.Stocks c) (own : c.limit = limit)
    (supplied : S.instruction i) (calls : i.Raises limit (.recursionLimit limit))
    (inside : S.body body) (pushed : S.Frames frame) (outer : ∀ f ∈ frames, S.Frames f) :
    S.Reaches limit (Machine.enter i.line body frame c frames) := by
  subst own
  unfold Machine.enter Action.enter
  by_cases full : c.limit ≤ c.depth
  · rw [if_pos full]
    exact reaches_fail stocked supplied calls frames
  · rw [if_neg full]
    refine ⟨stocked, fun j mem => S.of_body inside mem, fun f mem => ?_⟩
    rcases List.mem_cons.1 mem with rfl | old
    · exact pushed
    · exact outer f old

/-- The test of a loop is blamed on the loop. -/
theorem reaches_test {c : Context} {l : Loop} {rest : Code} {frames : List Frame}
    (stocked : S.Stocks c) (loop : S.Loops l) (code : ∀ i ∈ rest, S.instruction i)
    (outer : ∀ f ∈ frames, S.Frames f) :
    S.Reaches c.limit (Machine.test l rest c frames) := by
  have kept := popBool stocked '#'
  have steady : c.SameDepth _ := (Habit.keeps_popBool (H := depthHabit) '#' c).1
  have raised : Action.RaisesOnly (Op.loop.Raises c.limit) (Action.popBool '#') :=
    Op.raisesOnly_popBool rfl
  unfold Machine.test
  cases popped : Action.popBool '#' c with
  | error fault d =>
    rw [popped] at kept
    exact reaches_fail kept loop.line (raised c fault d popped) frames
  | ok more d =>
    rw [popped] at kept steady
    cases more with
    | true =>
      exact reaches_enter kept.2 steady.limit loop.line ⟨rfl, by simp⟩ loop.body
        (.again loop code) outer
    | false => exact ⟨kept.2, code, outer⟩

theorem reaches_finish {c : Context} {frames : List Frame} (stocked : S.Stocks c)
    (supplied : ∀ f ∈ frames, S.Frames f) : S.Reaches c.limit (Machine.finish c frames) := by
  cases frames with
  | nil => exact ⟨stocked, fun e failed => by cases failed⟩
  | cons frame outer =>
    have others : ∀ f ∈ outer, S.Frames f := fun f mem => supplied f (List.mem_cons_of_mem _ mem)
    cases supplied frame List.mem_cons_self with
    | resume code => exact ⟨stocked, code, others⟩
    | test loop code => exact reaches_test (c := c.leave) stocked loop code others
    | again loop code =>
      exact reaches_enter (c := c.leave) stocked rfl loop.line ⟨rfl, by simp⟩ loop.condition
        (.test ⟨loop.line, loop.condition, loop.body⟩ code) others

theorem reaches_advance {c : Context} {i : Instruction} {rest : Code} {frames : List Frame}
    (stocked : S.Stocks c) (supplied : S.instruction i) (code : ∀ j ∈ rest, S.instruction j)
    (outer : ∀ f ∈ frames, S.Frames f) :
    S.Reaches c.limit (Machine.advance i rest c frames) := by
  have kept := perform stocked supplied
  have steady : c.SameDepth _ := (Habit.instruction (H := depthHabit) i c).1
  unfold Machine.advance
  cases performed : i.perform c with
  | error fault d =>
    rw [performed] at kept
    exact reaches_fail kept supplied (i.perform_raises c.limit c fault d performed) frames
  | ok effect d =>
    rw [performed] at kept steady
    have starts := i.perform_starts c effect d performed
    cases effect with
    | proceed => exact ⟨kept.2, code, outer⟩
    | call body =>
      exact reaches_enter kept.2 steady.limit supplied
        (Instruction.raises_limit_of_starts_call starts _) kept.1 (.resume code) outer
    | loop condition body =>
      obtain ⟨line, rfl⟩ := Instruction.eq_loop_of_starts starts
      obtain ⟨⟨first, second⟩, after⟩ := kept
      exact reaches_enter after steady.limit supplied ⟨rfl, by simp⟩ first
        (.test ⟨supplied, first, second⟩ code) outer

/-- One step of a machine that is equipped from the supply. -/
theorem step {m : Machine} (h : S.Equips m) : S.Reaches m.context.limit m.step := by
  obtain ⟨c, code, frames⟩ := m
  obtain ⟨stocked, supplied, outer⟩ := h
  cases code with
  | nil => exact reaches_finish stocked outer
  | cons i rest =>
    exact reaches_advance stocked (supplied i List.mem_cons_self)
      (fun j mem => supplied j (List.mem_cons_of_mem i mem)) outer

/-- A run that is equipped from the supply ends with values of the supply, and with an error
only if an instruction of the supply is to blame. -/
theorem run {steps : Nat} {m : Machine} {o : Outcome} (h : S.Equips m)
    (ended : m.run steps = some o) : S.Reaches m.context.limit (.ended o) := by
  induction steps generalizing m with
  | zero => cases ended
  | succ steps ih =>
    have reached := step h
    have later := (laterHabit.step Context.later_depth m).1
    unfold Machine.run at ended
    cases hs : m.step with
    | running next =>
      rw [hs] at ended reached later
      rw [← show next.context.limit = m.context.limit from later.limit]
      exact ih reached ended
    | ended outcome =>
      rw [hs] at ended reached
      cases ended
      exact reached

end Supply

/-- **Every error points at an instruction that can raise it.** If a run fails, some
instruction of the code, or of a quotation that was on the stack or in a variable at the
start, at any level, has the line of the error and is one that raises such a fault. -/
theorem error_blames_instruction {steps : Nat} {code : Code} {c c' : Context} {e : RuntimeError}
    (failed : c.run steps code = some ⟨.error e, c'⟩) :
    ∃ i, (i ∈ code.parts ∨ ∃ v, c.Has v ∧ i ∈ v.parts) ∧ i.line = e.line ∧
      i.Raises c.limit e.val := by
  -- The supply is all that is there at the start.
  let start : Supply := .ofParts fun i => i ∈ code.parts ∨ ∃ v, c.Has v ∧ i ∈ v.parts
  have equipped : start.Equips ⟨c, code, []⟩ := by
    refine ⟨fun v has => ?_, fun i mem j inside => ?_, fun f mem => by cases mem⟩
    · exact Supply.ofParts_value.2 fun i inside => Or.inr ⟨v, has, inside⟩
    · exact Or.inl (Code.mem_parts_of_mem mem inside)
  obtain ⟨i, supplied, line, raised⟩ := (Supply.run equipped failed).2 e rfl
  exact ⟨i, supplied i i.mem_parts, line, raised⟩

/-- A loop whose body calls the variable `f`, which divides by zero on line 4: the division
is found in the variable. -/
theorem error_blames_instruction_division :
    ∃ v, Context.Has
        { environment := .store .empty ⟨5⟩
            (.quotation [.op 3 (.integer 1), .op 3 (.integer 0), .op 4 (.primitive .divide)]) } v ∧
      .op 4 (.primitive .divide) ∈ v.parts := by
  have failed : Context.run 20
      [.quotation 1 [.op 1 (.integer 1)],
        .quotation 1 [.op 1 (.letter ⟨5⟩), .op 1 .load, .op 2 (.execute false)], .op 1 .loop]
      { environment := .store .empty ⟨5⟩
          (.quotation [.op 3 (.integer 1), .op 3 (.integer 0), .op 4 (.primitive .divide)]) } =
    some ⟨.error ⟨4, .divisionByZero⟩,
      { environment := .store .empty ⟨5⟩
          (.quotation [.op 3 (.integer 1), .op 3 (.integer 0), .op 4 (.primitive .divide)]) }⟩ :=
    rfl
  obtain ⟨i, found, line, raised⟩ := error_blames_instruction failed
  cases i with
  | op k o =>
    cases (line : k = 4)
    cases (raised : o = .primitive .divide)
    rcases found with inside | held
    · simp [Code.parts, Instruction.parts] at inside
    · exact held
  | quotation k body => cases raised

end FalseLang
