import FalseLang.Proofs.Machine.Progress

/-
  Depth: how deep a run is inside quotations, at every point of it.

  `Machine.after` is what a machine has come to after some steps. What one step keeps
  holds at all these points and at the end (`Machine.holds_after`,
  `Machine.holds_of_run`); the induction is done once, here.

  The quotations that a run is inside of are counted twice, by the frames of the
  machine and by the depth of the context. `Context.Level` says that the two counts
  agree, and `Machine.levels_step` that every step keeps them so: a quotation that is
  entered adds one to both, one that has ended takes one from both, and a fault takes
  away as many levels as it drops frames. So a call that ends in any way leaves the
  depth it has found, and calls on one context do not disturb each other
  (`calls_keep_depth`).
-/

namespace FalseLang

/-! ## Points of a run -/

/-- A machine that is running has one property, or an outcome has another. -/
def Status.Holds (P : Machine → Prop) (Q : Outcome → Prop) : Status → Prop
  | .running m => P m
  | .ended o => Q o

namespace Machine

/-- What a machine has come to after a number of steps, or by then has ended with. -/
def after : Nat → Machine → Status
  | 0, m => .running m
  | n + 1, m =>
    match m.step with
    | .running next => next.after n
    | .ended outcome => .ended outcome

theorem run_eq_some_iff {n : Nat} {m : Machine} {o : Outcome} :
    m.run n = some o ↔ m.after n = .ended o := by
  induction n generalizing m with
  | zero => simp [run, after]
  | succ n ih =>
    unfold run after
    cases m.step with
    | running next => exact ih
    | ended outcome => simp

section Points
variable {P : Machine → Prop} {Q : Outcome → Prop} (step : ∀ {m}, P m → m.step.Holds P Q)
include step

/-- What every step keeps holds after any number of steps. -/
theorem holds_after {m : Machine} (h : P m) (n : Nat) : (m.after n).Holds P Q := by
  induction n generalizing m with
  | zero => exact h
  | succ n ih =>
    have stepped := step h
    unfold after
    cases hs : m.step with
    | running next =>
      rw [hs] at stepped
      exact ih stepped
    | ended outcome =>
      rw [hs] at stepped
      exact stepped

theorem holds_of_run {m : Machine} {n : Nat} {o : Outcome} (h : P m) (ended : m.run n = some o) :
    Q o := by
  have reached := holds_after step h n
  rw [run_eq_some_iff.1 ended] at reached
  exact reached

end Points

end Machine

theorem Status.holds_context {R : Context → Prop} {s : Status} :
    s.Holds (fun m => R m.context) (fun o => R o.context) ↔ R s.context := by
  cases s <;> exact Iff.rfl

/-- A habit leads from the start of a run to every point of it. -/
theorem Habit.after {H : Habit} (depth : ∀ (c : Context) k, H.rel c { c with depth := k })
    (m : Machine) (n : Nat) : H.rel m.context (m.after n).context := by
  have kept {next : Machine} (before : H.rel m.context next.context) :
      next.step.Holds (fun k => H.rel m.context k.context) (fun o => H.rel m.context o.context) :=
    Status.holds_context.2 (H.trans before (H.step depth next).1)
  exact Status.holds_context.1 (Machine.holds_after kept (H.refl m.context) n)

/-! ## Levels -/

/-- One context is some levels deeper than another, under the same limit. -/
structure Context.Level (start : Context) (level : Nat) (c : Context) : Prop where
  limit : c.limit = start.limit
  depth : c.depth = start.depth + level
  within : start.depth ≤ start.limit → c.depth ≤ c.limit

namespace Context.Level

variable {start c d : Context} {level : Nat}

theorem refl (c : Context) : c.Level 0 c := ⟨rfl, rfl, id⟩

theorem of_sameDepth (h : start.Level level c) (same : c.SameDepth d) : start.Level level d := by
  obtain ⟨limit, depth⟩ := same
  refine ⟨limit.trans h.limit, depth.trans h.depth, fun room => ?_⟩
  rw [limit, depth]
  exact h.within room

theorem entered (h : start.Level level c) (room : c.depth < c.limit) :
    start.Level (level + 1) { c with depth := c.depth + 1 } := by
  refine ⟨h.limit, ?_, fun _ => room⟩
  have depth := h.depth
  show c.depth + 1 = start.depth + (level + 1)
  omega

theorem left (h : start.Level (level + 1) c) : start.Level level c.leave := by
  have depth := h.depth
  refine ⟨h.limit, ?_, fun room => ?_⟩
  · show c.depth - 1 = start.depth + level
    omega
  · have inside := h.within room
    show c.depth - 1 ≤ c.limit
    omega

/-- Without the levels that were entered, the depth is that of the start. -/
theorem unwound (h : start.Level level c) :
    start.SameDepth { c with depth := c.depth - level } := by
  refine ⟨h.limit, ?_⟩
  have depth := h.depth
  show c.depth - level = start.depth
  omega

end Context.Level

/-- A machine has a level for each of its frames, and an outcome has none left. -/
def Status.Levels (start : Context) : Status → Prop :=
  Status.Holds (fun m => start.Level m.frames.length m.context) (fun o => start.SameDepth o.context)

namespace Machine

variable {start c : Context} {frames : List Frame}

theorem levels_fail (h : start.Level frames.length c) (line : Nat) (fault : Fault) :
    (fail line fault c frames).Levels start := by
  unfold fail
  rw [c.unwind_eq frames]
  exact h.unwound

theorem levels_enter (h : start.Level frames.length c) (line : Nat) (body : Code)
    (frame : Frame) : (enter line body frame c frames).Levels start := by
  unfold enter Action.enter
  by_cases full : c.limit ≤ c.depth
  · rw [if_pos full]
    exact levels_fail h line _
  · rw [if_neg full]
    exact h.entered (Nat.lt_of_not_le full)

theorem levels_test (h : start.Level frames.length c) (loop : Loop) (rest : Code) :
    (test loop rest c frames).Levels start := by
  have steady : c.SameDepth _ := (Habit.keeps_popBool (H := depthHabit) '#' c).1
  unfold test
  cases popped : Action.popBool '#' c with
  | error fault d =>
    rw [popped] at steady
    exact levels_fail (h.of_sameDepth steady) _ fault
  | ok more d =>
    rw [popped] at steady
    have after := h.of_sameDepth steady
    cases more with
    | true => exact levels_enter after _ _ _
    | false => exact after

theorem levels_finish (h : start.Level frames.length c) : (finish c frames).Levels start := by
  match frames with
  | [] => exact ⟨h.limit, h.depth⟩
  | .resume rest :: outer => exact h.left
  | .test loop rest :: outer => exact levels_test h.left loop rest
  | .again loop rest :: outer => exact levels_enter h.left _ _ _

theorem levels_advance (h : start.Level frames.length c) (i : Instruction) (rest : Code) :
    (advance i rest c frames).Levels start := by
  have steady : c.SameDepth _ := (Habit.instruction (H := depthHabit) i c).1
  unfold advance
  cases performed : i.perform c with
  | error fault d =>
    rw [performed] at steady
    exact levels_fail (h.of_sameDepth steady) _ fault
  | ok effect d =>
    rw [performed] at steady
    have after := h.of_sameDepth steady
    cases effect with
    | proceed => exact after
    | call body => exact levels_enter after _ _ _
    | loop condition body => exact levels_enter after _ _ _

/-- One step enters or leaves as many levels as it adds or drops frames. -/
theorem levels_step {m : Machine} (h : start.Level m.frames.length m.context) :
    m.step.Levels start := by
  obtain ⟨c, code, frames⟩ := m
  cases code with
  | nil => exact levels_finish h
  | cons i rest => exact levels_advance h i rest

theorem levels_after (c : Context) (code : Code) (n : Nat) :
    (after n ⟨c, code, []⟩).Levels c :=
  holds_after levels_step (Context.Level.refl c) n

end Machine

/-- However a run ends, it is back at its depth, under its limit. -/
theorem Context.sameDepth_of_run {c : Context} {steps : Nat} {code : Code} {o : Outcome}
    (ended : c.run steps code = some o) : c.SameDepth o.context := by
  have level : c.Level (Machine.frames ⟨c, code, []⟩).length c := Context.Level.refl c
  exact Machine.holds_of_run Machine.levels_step level ended

/-! ## Calls and sessions -/

/-- A call that can be made on a context. -/
inductive Call where
  | run (code : Code)
  | execute (conditional : Bool) (line : Nat)
  | loop (line : Nat)
  | primitive (p : Primitive) (line : Nat)

/-- The code that a call runs; all calls but the first are of a single instruction. -/
def Call.code : Call → Code
  | .run code => code
  | .execute conditional line => [.op line (.execute conditional)]
  | .loop line => [.op line .loop]
  | .primitive p line => [.op line (.primitive p)]

namespace Context

/-- A context with the stack, the variables and the devices of another. -/
def given (fresh c : Context) : Context :=
  { fresh with
    stack := c.stack, environment := c.environment, input := c.input, output := c.output }

/-- The outcomes of calls that are made one after the other, each on what the one before
has left; `prepare` is done to the context before each call. -/
def session (steps : Nat) (prepare : Context → Context) :
    Context → List Call → Option (List Outcome)
  | _, [] => some []
  | c, call :: calls => do
    let o ← (prepare c).run steps call.code
    let later ← session steps prepare o.context calls
    return o :: later

theorem given_eq {fresh c : Context} (same : c.SameDepth fresh) : fresh.given c = c := by
  obtain ⟨limit, depth⟩ := same
  unfold given
  rw [limit, depth]

/-- It makes no difference to put a context of the same depth in place of the one that the
last call has left. -/
theorem session_given {fresh c : Context} (same : c.SameDepth fresh) (steps : Nat)
    (calls : List Call) : session steps fresh.given c calls = session steps id c calls := by
  induction calls generalizing c with
  | nil => rfl
  | cons call calls ih =>
    simp only [session, given_eq same, id]
    cases ended : c.run steps call.code with
    | none => rfl
    | some o =>
      have kept := sameDepth_of_run ended
      have again : o.context.SameDepth fresh :=
        ⟨same.limit.trans kept.limit.symm, same.depth.trans kept.depth.symm⟩
      simp only [Option.bind_eq_bind, Option.bind_some, ih again]

end Context

/-- **Every call leaves the depth it has found.** A call that ends, with whatever result, is
back at its depth and limit, and while it runs no instruction is performed deeper than the
limit. So in every session the calls have the outcomes that they would have if each got a
fresh context, of the depth and limit of the first, with the stack, the variables and the
devices that the last call has left. -/
theorem calls_keep_depth {c : Context} (room : c.depth ≤ c.limit) :
    (∀ (call : Call) {steps : Nat} {o : Outcome}, c.run steps call.code = some o →
      o.context.depth = c.depth ∧ o.context.limit = c.limit) ∧
    (∀ (call : Call) {n : Nat} {m : Machine} {i : Instruction} {rest : Code},
      Machine.after n ⟨c, call.code, []⟩ = .running m → m.code = i :: rest →
      m.context.depth ≤ c.limit) ∧
    (∀ (fresh : Context), fresh.depth = c.depth → fresh.limit = c.limit →
      ∀ (steps : Nat) (calls : List Call),
        c.session steps id calls = c.session steps fresh.given calls) := by
  refine ⟨?_, ?_, ?_⟩
  · intro call steps o ended
    have kept := Context.sameDepth_of_run ended
    exact ⟨kept.depth, kept.limit⟩
  · intro call n m i rest reached performing
    have level := Machine.levels_after c call.code n
    rw [reached] at level
    calc m.context.depth ≤ m.context.limit := level.within room
      _ = c.limit := level.limit
  · intro fresh depth limit steps calls
    exact (Context.session_given ⟨limit, depth⟩ steps calls).symm

/-- Three quotations inside each other, of which a limit of two stops the innermost: the depth
is back at zero, although it has been two. So a call that needs two levels ends well behind
it, as on a fresh context. -/
theorem calls_keep_depth_limit :
    (Context.run 6 (Call.code (.run [.quotation 1 [.quotation 1 [.quotation 1 [],
          .op 2 (.execute false)], .op 3 (.execute false)], .op 4 (.execute false)]))
        { limit := 2 } = some ⟨.error ⟨2, .recursionLimit 2⟩, { limit := 2 }⟩ ∧
      ({ limit := 2 } : Context).depth = 0) ∧
    (Machine.after 4 ⟨{ limit := 2 }, Call.code (.run [.quotation 1 [.quotation 1
          [.quotation 1 [], .op 2 (.execute false)], .op 3 (.execute false)],
          .op 4 (.execute false)]), []⟩ =
        .running ⟨{ limit := 2, depth := 2 }, [.quotation 1 [], .op 2 (.execute false)],
          [.resume [], .resume []]⟩ ∧ 2 ≤ ({ limit := 2 } : Context).limit) ∧
    Context.session 20 (Context.given { limit := 2 }) { limit := 2 }
        [.run [.quotation 1 [.quotation 1 [.quotation 1 [], .op 2 (.execute false)],
          .op 3 (.execute false)], .op 4 (.execute false)],
        .run [.quotation 5 [.quotation 5 [.op 5 (.integer 7)], .op 5 (.execute false)]],
        .execute false 6] =
      some [⟨.error ⟨2, .recursionLimit 2⟩, { limit := 2 }⟩,
        ⟨.ok (), { limit := 2, stack := [.quotation [.quotation 5 [.op 5 (.integer 7)],
          .op 5 (.execute false)]] }⟩,
        ⟨.ok (), { limit := 2, stack := [.integer 7] }⟩] := by
  have room : ({ limit := 2 } : Context).depth ≤ ({ limit := 2 } : Context).limit := by decide
  obtain ⟨kept, inside, alike⟩ := calls_keep_depth room
  refine ⟨?_, ?_, ?_⟩
  · have ended : Context.run 6 (Call.code (.run [.quotation 1 [.quotation 1 [.quotation 1 [],
          .op 2 (.execute false)], .op 3 (.execute false)], .op 4 (.execute false)]))
        { limit := 2 } = some ⟨.error ⟨2, .recursionLimit 2⟩, { limit := 2 }⟩ := rfl
    exact ⟨ended, (kept _ ended).1⟩
  · have reached : Machine.after 4 ⟨{ limit := 2 }, Call.code (.run [.quotation 1 [.quotation 1
          [.quotation 1 [], .op 2 (.execute false)], .op 3 (.execute false)],
          .op 4 (.execute false)]), []⟩ =
        .running ⟨{ limit := 2, depth := 2 }, [.quotation 1 [], .op 2 (.execute false)],
          [.resume [], .resume []]⟩ := rfl
    exact ⟨reached, inside _ reached rfl⟩
  · rw [← alike { limit := 2 } rfl rfl]
    rfl

end FalseLang
