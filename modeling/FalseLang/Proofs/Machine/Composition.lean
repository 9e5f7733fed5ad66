import FalseLang.Proofs.Machine.Depth

/-
  Composition: the run of code from the runs of its parts.

  The machine takes one step after the other, whatever it is inside of. Here its runs
  are cut into those of single instructions, of quotations and of the rounds of a
  loop. `Context.Yields` says with what outcome a run ends, `Context.Performs` the same
  of one instruction, `Context.Nests` of a quotation that is run one level deeper and
  `Context.Iterates` of a loop. The rules that tie them to each other hold in both
  directions (`yields_cons`, `yields_append`, `yields_enter`, `yields_loop`), so that
  nothing behind this module has to look at frames.

  All rests on one fact: a step does not look below the frames it adds and removes.
  With more frames at the bottom a machine takes the same steps until it would have
  ended (`Machine.step_inside`).
-/

namespace FalseLang

/-! ## One thing after the other -/

/-- What follows an outcome: the next thing if all went well, and otherwise nothing. -/
def Outcome.Then (p : Outcome) (next : Context → Outcome → Prop) (o : Outcome) : Prop :=
  match p.result with
  | .ok () => next p.context o
  | .error _ => o = p

/-- To do the last two of three things after the first is to do the last after the first two. -/
theorem Outcome.then_assoc {p o : Outcome} {next last : Context → Outcome → Prop} :
    (∃ q, p.Then next q ∧ q.Then last o) ↔
      p.Then (fun d o => ∃ q, next d q ∧ q.Then last o) o := by
  obtain ⟨result, d⟩ := p
  cases result with
  | ok u => exact Iff.rfl
  | error e =>
    constructor
    · intro ⟨q, same, rest⟩
      cases same
      exact rest
    · intro same
      exact ⟨⟨.error e, d⟩, rfl, same⟩

theorem Outcome.Then.mono {p o : Outcome} {next next' : Context → Outcome → Prop}
    (h : ∀ d o, next d o → next' d o) (follows : p.Then next o) : p.Then next' o := by
  obtain ⟨result, d⟩ := p
  cases result with
  | ok u => exact h d o follows
  | error e => exact follows

theorem Outcome.then_congr {p o : Outcome} {next next' : Context → Outcome → Prop}
    (h : ∀ d o, next d o ↔ next' d o) : p.Then next o ↔ p.Then next' o := by
  have same : next = next' := funext fun d => funext fun o => propext (h d o)
  rw [same]

/-! ## Runs and what they end with -/

/-- The rest of a run, in at most the given number of steps. -/
def Status.run (n : Nat) : Status → Option Outcome
  | .running m => m.run n
  | .ended o => some o

/-- What is running ends with the outcome. -/
def Status.Yields (s : Status) (o : Outcome) : Prop := ∃ n, s.run n = some o

/-- The run of code in a context ends with the outcome. -/
def Context.Yields (c : Context) (code : Code) (o : Outcome) : Prop :=
  ∃ steps, c.run steps code = some o

theorem Machine.run_succ (n : Nat) (m : Machine) : m.run (n + 1) = m.step.run n := by
  unfold Machine.run Status.run
  cases m.step <;> rfl

namespace Status

theorem yields_ended {p o : Outcome} : (ended p).Yields o ↔ o = p := by
  constructor
  · intro ⟨n, h⟩
    exact (Option.some.inj h).symm
  · intro same
    exact ⟨0, congrArg some same.symm⟩

theorem yields_running {m : Machine} {o : Outcome} : (running m).Yields o ↔ m.step.Yields o := by
  constructor
  · intro ⟨n, h⟩
    cases n with
    | zero => cases h
    | succ n => exact ⟨n, (m.run_succ n).symm.trans h⟩
  · intro ⟨n, h⟩
    exact ⟨n + 1, (m.run_succ n).trans h⟩

end Status

/-- However a run ends, it is back at its depth, under its limit. -/
theorem Context.Yields.sameDepth {c : Context} {code : Code} {o : Outcome}
    (h : c.Yields code o) : c.SameDepth o.context := by
  obtain ⟨steps, ended⟩ := h
  exact sameDepth_of_run ended

/-! ## Inside of other frames -/

/-- A machine with more frames below its own. -/
def Machine.inside (outer : List Frame) (m : Machine) : Machine :=
  { m with frames := m.frames ++ outer }

/-- What a step leads to with more frames below: behind a run that has ended well the first of
them comes next, and a fault drops them all. -/
def Status.inside (outer : List Frame) : Status → Status
  | .running m => .running (m.inside outer)
  | .ended ⟨.ok (), c⟩ => Machine.finish c outer
  | .ended ⟨.error e, c⟩ => .ended ⟨.error e, c.unwind outer⟩

namespace Machine

theorem fail_inside (line : Nat) (fault : Fault) (c : Context) (frames outer : List Frame) :
    fail line fault c (frames ++ outer) = (fail line fault c frames).inside outer := by
  simp only [fail, Status.inside, Context.unwind_append]

theorem enter_inside (line : Nat) (body : Code) (frame : Frame) (c : Context)
    (frames outer : List Frame) :
    enter line body frame c (frames ++ outer) = (enter line body frame c frames).inside outer := by
  unfold enter
  cases Action.enter c with
  | ok u d => rfl
  | error fault d => exact fail_inside line fault d frames outer

theorem test_inside (loop : Loop) (rest : Code) (c : Context) (frames outer : List Frame) :
    test loop rest c (frames ++ outer) = (test loop rest c frames).inside outer := by
  unfold test
  cases Action.popBool '#' c with
  | error fault d => exact fail_inside _ fault d frames outer
  | ok more d =>
    cases more with
    | true => exact enter_inside _ _ _ d frames outer
    | false => rfl

theorem finish_inside (c : Context) (frames outer : List Frame) :
    finish c (frames ++ outer) = (finish c frames).inside outer := by
  match frames with
  | [] => rfl
  | .resume rest :: frames => rfl
  | .test loop rest :: frames => exact test_inside loop rest c.leave frames outer
  | .again loop rest :: frames => exact enter_inside _ _ _ c.leave frames outer

theorem advance_inside (i : Instruction) (rest : Code) (c : Context) (frames outer : List Frame) :
    advance i rest c (frames ++ outer) = (advance i rest c frames).inside outer := by
  unfold advance
  cases i.perform c with
  | error fault d => exact fail_inside _ fault d frames outer
  | ok effect d =>
    cases effect with
    | proceed => rfl
    | call body => exact enter_inside _ _ _ d frames outer
    | loop condition body => exact enter_inside _ _ _ d frames outer

/-- A step does not look below its own frames. -/
theorem step_inside (m : Machine) (outer : List Frame) :
    (m.inside outer).step = m.step.inside outer := by
  obtain ⟨c, code, frames⟩ := m
  cases code with
  | nil => exact finish_inside c frames outer
  | cons i rest => exact advance_inside i rest c frames outer

end Machine

namespace Status

/-- A run inside of other frames is the run by itself, and then what these frames make of it. -/
theorem run_inside {s : Status} {outer : List Frame} {n : Nat} {o : Outcome}
    (h : (s.inside outer).run n = some o) :
    ∃ p, s.Yields p ∧ ∃ k ≤ n, ((ended p).inside outer).run k = some o := by
  induction n generalizing s with
  | zero =>
    cases s with
    | running m => cases h
    | ended p => exact ⟨p, yields_ended.2 rfl, 0, Nat.le_refl 0, h⟩
  | succ n ih =>
    cases s with
    | running m =>
      have stepped : (m.step.inside outer).run n = some o := by
        rw [← m.step_inside outer, ← Machine.run_succ]
        exact h
      obtain ⟨p, yields, k, fewer, rest⟩ := ih stepped
      exact ⟨p, yields_running.2 yields, k, Nat.le_succ_of_le fewer, rest⟩
    | ended p => exact ⟨p, yields_ended.2 rfl, n + 1, Nat.le_refl _, h⟩

theorem yields_inside {s : Status} {outer : List Frame} {p o : Outcome} (h : s.Yields p)
    (rest : ((ended p).inside outer).Yields o) : (s.inside outer).Yields o := by
  obtain ⟨n, ended⟩ := h
  induction n generalizing s with
  | zero =>
    cases s with
    | running m => cases ended
    | ended q =>
      cases ended
      exact rest
  | succ n ih =>
    cases s with
    | running m =>
      have stepped : m.step.run n = some p := (m.run_succ n).symm.trans ended
      apply yields_running.2
      rw [m.step_inside outer]
      exact ih stepped
    | ended q =>
      cases ended
      exact rest

end Status

/-! ## Quotations -/

/-- A quotation is run one level deeper, for an instruction on the line. -/
inductive Context.Nests (line : Nat) (body : Code) (c : Context) : Outcome → Prop where
  | refused (full : c.limit ≤ c.depth) :
    Nests line body c ⟨.error ⟨line, .recursionLimit c.limit⟩, c⟩
  | entered (room : c.depth < c.limit) {result : Except RuntimeError Unit} {d : Context}
    (inside : Context.Yields { c with depth := c.depth + 1 } body ⟨result, d⟩) :
    Nests line body c ⟨result, d.leave⟩

theorem Context.Nests.sameDepth {line : Nat} {body : Code} {c : Context} {o : Outcome}
    (h : c.Nests line body o) : c.SameDepth o.context := by
  cases h with
  | refused full => exact ⟨rfl, rfl⟩
  | entered room inside =>
    obtain ⟨limit, depth⟩ := inside.sameDepth
    exact ⟨limit, congrArg (· - 1) depth⟩

/-- What comes after the quotation that a frame was waiting for. -/
def Frame.next (c : Context) : Frame → Status
  | .resume rest => .running ⟨c, rest, []⟩
  | .test loop rest => Machine.test loop rest c []
  | .again loop rest =>
    Machine.enter loop.line loop.condition
      (.test { loop with iterations := loop.iterations + 1 } rest) c []

theorem Frame.finish_eq_next (frame : Frame) (c : Context) :
    Machine.finish c [frame] = frame.next c.leave := by
  cases frame <;> rfl

namespace Machine

variable {line : Nat} {body : Code} {frame : Frame} {c : Context} {o : Outcome}

theorem enter_of_full (full : c.limit ≤ c.depth) :
    enter line body frame c [] = .ended ⟨.error ⟨line, .recursionLimit c.limit⟩, c⟩ := by
  unfold enter Action.enter
  rw [if_pos full]
  rfl

theorem enter_of_room (room : c.depth < c.limit) :
    enter line body frame c [] =
      (Status.running ⟨{ c with depth := c.depth + 1 }, body, []⟩).inside [frame] := by
  unfold enter Action.enter
  rw [if_neg (Nat.not_le_of_lt room)]
  rfl

/-- To enter a quotation is to run it and then to go on with its frame, which takes fewer
steps. -/
theorem run_enter {n : Nat} (h : (enter line body frame c []).run n = some o) :
    ∃ p, c.Nests line body p ∧ p.Then (fun d o => ∃ k < n, (frame.next d).run k = some o) o := by
  by_cases full : c.limit ≤ c.depth
  · rw [enter_of_full full] at h
    exact ⟨_, .refused full, (Option.some.inj h).symm⟩
  · have room := Nat.lt_of_not_le full
    rw [enter_of_room room] at h
    cases n with
    | zero => cases h
    | succ n =>
      have stepped := (run_succ n _).symm.trans h
      rw [step_inside] at stepped
      obtain ⟨⟨result, d⟩, yields, k, fewer, rest⟩ := Status.run_inside stepped
      refine ⟨_, .entered room (Status.yields_running.2 yields), ?_⟩
      cases result with
      | ok u =>
        rw [Status.inside, frame.finish_eq_next] at rest
        exact ⟨k, Nat.lt_succ_of_le fewer, rest⟩
      | error e => exact (Option.some.inj rest).symm

theorem yields_enter : (enter line body frame c []).Yields o ↔
    ∃ p, c.Nests line body p ∧ p.Then (fun d => (frame.next d).Yields) o := by
  constructor
  · intro ⟨n, h⟩
    obtain ⟨⟨result, d⟩, nests, follows⟩ := run_enter h
    refine ⟨⟨result, d⟩, nests, ?_⟩
    cases result with
    | ok u =>
      obtain ⟨k, _, rest⟩ := follows
      exact ⟨k, rest⟩
    | error e => exact follows
  · intro ⟨p, nests, follows⟩
    cases nests with
    | refused full =>
      rw [enter_of_full full]
      exact Status.yields_ended.2 follows
    | @entered room result d inside =>
      have alone :
          (Status.running ⟨{ c with depth := c.depth + 1 }, body, []⟩).Yields ⟨result, d⟩ := inside
      rw [enter_of_room room]
      apply Status.yields_inside alone
      cases result with
      | ok u =>
        rw [Status.inside, frame.finish_eq_next]
        exact follows
      | error e => exact Status.yields_ended.2 follows

end Machine

/-! ## Loops -/

/-- A loop on a line runs its condition, tests what that has left, and if it is true runs its
body and all of this again. -/
inductive Context.Iterates (line : Nat) (condition body : Code) : Context → Outcome → Prop where
  | conditionFails {c d : Context} {e : RuntimeError}
    (first : c.Nests line condition ⟨.error e, d⟩) : Iterates line condition body c ⟨.error e, d⟩
  | testFails {c d d' : Context} {fault : Fault} (first : c.Nests line condition ⟨.ok (), d⟩)
    (tested : Action.popBool '#' d = .error fault d') :
    Iterates line condition body c ⟨.error ⟨line, fault⟩, d'⟩
  | stops {c d d' : Context} (first : c.Nests line condition ⟨.ok (), d⟩)
    (tested : Action.popBool '#' d = .ok false d') : Iterates line condition body c ⟨.ok (), d'⟩
  | bodyFails {c d d' f : Context} {e : RuntimeError}
    (first : c.Nests line condition ⟨.ok (), d⟩) (tested : Action.popBool '#' d = .ok true d')
    (second : d'.Nests line body ⟨.error e, f⟩) : Iterates line condition body c ⟨.error e, f⟩
  | again {c d d' f : Context} {o : Outcome} (first : c.Nests line condition ⟨.ok (), d⟩)
    (tested : Action.popBool '#' d = .ok true d') (second : d'.Nests line body ⟨.ok (), f⟩)
    (later : Iterates line condition body f o) : Iterates line condition body c o

namespace Machine

variable {line : Nat} {condition body rest : Code} {c : Context} {o : Outcome}

/-- A loop that the machine has ended was iterated, and then the code behind it was run. -/
theorem iterates_of_run {iterations n : Nat}
    (h : (enter line condition (.test ⟨line, condition, body, iterations⟩ rest) c []).run n =
      some o) :
    ∃ p, c.Iterates line condition body p ∧ p.Then (fun d => d.Yields rest) o := by
  -- A round takes steps, so that there are fewer left for the rounds behind it.
  induction n using Nat.strongRecOn generalizing c iterations with
  | ind n ih =>
    obtain ⟨⟨result, d⟩, first, follows⟩ := run_enter h
    cases result with
    | error e => exact ⟨_, .conditionFails first, follows⟩
    | ok u =>
      obtain ⟨k, fewer, ended⟩ := follows
      simp only [Frame.next, test] at ended
      cases tested : Action.popBool '#' d with
      | error fault d' =>
        rw [tested] at ended
        exact ⟨_, .testFails first tested, (Option.some.inj ended).symm⟩
      | ok more d' =>
        rw [tested] at ended
        cases more with
        | false => exact ⟨_, .stops first tested, k, ended⟩
        | true =>
          obtain ⟨⟨result, f⟩, second, follows⟩ := run_enter ended
          cases result with
          | error e => exact ⟨_, .bodyFails first tested second, follows⟩
          | ok u =>
            obtain ⟨j, fewer', ended⟩ := follows
            obtain ⟨p, later, behind⟩ := ih j (Nat.lt_trans fewer' fewer) ended
            exact ⟨p, .again first tested second later, behind⟩

theorem yields_of_iterates {p : Outcome} (h : c.Iterates line condition body p)
    (behind : p.Then (fun d => d.Yields rest) o) (iterations : Nat) :
    (enter line condition (.test ⟨line, condition, body, iterations⟩ rest) c []).Yields o := by
  induction h generalizing iterations with
  | conditionFails first => exact yields_enter.2 ⟨_, first, behind⟩
  | testFails first tested =>
    refine yields_enter.2 ⟨_, first, ?_⟩
    simp only [Outcome.Then, Frame.next, test, tested]
    exact Status.yields_ended.2 behind
  | stops first tested =>
    refine yields_enter.2 ⟨_, first, ?_⟩
    simp only [Outcome.Then, Frame.next, test, tested]
    exact behind
  | bodyFails first tested second =>
    refine yields_enter.2 ⟨_, first, ?_⟩
    simp only [Outcome.Then, Frame.next, test, tested]
    exact yields_enter.2 ⟨_, second, behind⟩
  | again first tested second later ih =>
    refine yields_enter.2 ⟨_, first, ?_⟩
    simp only [Outcome.Then, Frame.next, test, tested]
    exact yields_enter.2 ⟨_, second, ih behind _⟩

theorem yields_loop {iterations : Nat} :
    (enter line condition (.test ⟨line, condition, body, iterations⟩ rest) c []).Yields o ↔
      ∃ p, c.Iterates line condition body p ∧ p.Then (fun d => d.Yields rest) o := by
  constructor
  · intro ⟨n, h⟩
    exact iterates_of_run h
  · intro ⟨p, iterates, behind⟩
    exact yields_of_iterates iterates behind iterations

end Machine

/-! ## Instructions and code -/

/-- An instruction is performed, with all that it makes run. -/
inductive Context.Performs (c : Context) (i : Instruction) : Outcome → Prop where
  | proceeds {d : Context} (h : i.perform c = .ok .proceed d) : Performs c i ⟨.ok (), d⟩
  | calls {d : Context} {body : Code} {o : Outcome} (h : i.perform c = .ok (.call body) d)
    (nests : d.Nests i.line body o) : Performs c i o
  | loops {d : Context} {condition body : Code} {o : Outcome}
    (h : i.perform c = .ok (.loop condition body) d)
    (iterates : d.Iterates i.line condition body o) : Performs c i o
  | fails {d : Context} {fault : Fault} (h : i.perform c = .error fault d) :
    Performs c i ⟨.error ⟨i.line, fault⟩, d⟩

namespace Context

variable {c d : Context} {i : Instruction} {o : Outcome}

theorem performs_iff_of_proceed (h : i.perform c = .ok .proceed d) :
    c.Performs i o ↔ o = ⟨.ok (), d⟩ := by
  constructor
  · intro performs
    cases performs with
    | proceeds h' => cases h.symm.trans h'; rfl
    | calls h' | loops h' | fails h' => cases h.symm.trans h'
  · intro same
    exact same ▸ .proceeds h

theorem performs_iff_of_call {body : Code} (h : i.perform c = .ok (.call body) d) :
    c.Performs i o ↔ d.Nests i.line body o := by
  constructor
  · intro performs
    cases performs with
    | calls h' nests => cases h.symm.trans h'; exact nests
    | proceeds h' | loops h' | fails h' => cases h.symm.trans h'
  · exact .calls h

theorem performs_iff_of_loop {condition body : Code}
    (h : i.perform c = .ok (.loop condition body) d) :
    c.Performs i o ↔ d.Iterates i.line condition body o := by
  constructor
  · intro performs
    cases performs with
    | loops h' iterates => cases h.symm.trans h'; exact iterates
    | proceeds h' | calls h' | fails h' => cases h.symm.trans h'
  · exact .loops h

theorem performs_iff_of_fault {fault : Fault} (h : i.perform c = .error fault d) :
    c.Performs i o ↔ o = ⟨.error ⟨i.line, fault⟩, d⟩ := by
  constructor
  · intro performs
    cases performs with
    | fails h' => cases h.symm.trans h'; rfl
    | proceeds h' | calls h' | loops h' => cases h.symm.trans h'
  · intro same
    exact same ▸ .fails h

theorem yields_nil : c.Yields [] o ↔ o = ⟨.ok (), c⟩ :=
  Status.yields_running.trans Status.yields_ended

/-- Code is run by performing its first instruction and then running the rest. -/
theorem yields_cons {rest : Code} :
    c.Yields (i :: rest) o ↔ ∃ p, c.Performs i p ∧ p.Then (fun d => d.Yields rest) o := by
  refine Status.yields_running.trans ?_
  show (Machine.advance i rest c []).Yields o ↔ _
  unfold Machine.advance
  cases performed : i.perform c with
  | error fault d =>
    simp only [performs_iff_of_fault performed, exists_eq_left]
    exact Status.yields_ended
  | ok effect d =>
    cases effect with
    | proceed =>
      simp only [performs_iff_of_proceed performed, exists_eq_left]
      exact Iff.rfl
    | call body =>
      simp only [performs_iff_of_call performed]
      exact Machine.yields_enter
    | loop condition body =>
      simp only [performs_iff_of_loop performed]
      exact Machine.yields_loop

theorem yields_cons_of_proceed {rest : Code} (h : i.perform c = .ok .proceed d) :
    c.Yields (i :: rest) o ↔ d.Yields rest o := by
  rw [yields_cons]
  simp only [performs_iff_of_proceed h, exists_eq_left]
  exact Iff.rfl

theorem yields_singleton : c.Yields [i] o ↔ c.Performs i o := by
  rw [yields_cons]
  constructor
  · intro ⟨⟨result, d⟩, performs, follows⟩
    cases result with
    | ok u => rw [yields_nil.1 follows]; exact performs
    | error e => rw [follows]; exact performs
  · intro performs
    refine ⟨o, performs, ?_⟩
    obtain ⟨result, d⟩ := o
    cases result with
    | ok u => exact yields_nil.2 rfl
    | error e => rfl

/-- **Code is run part by part.** The run of two pieces of code is that of the first and, unless
it fails, then that of the second. -/
theorem yields_append {a b : Code} :
    c.Yields (a ++ b) o ↔ ∃ p, c.Yields a p ∧ p.Then (fun d => d.Yields b) o := by
  induction a generalizing c o with
  | nil =>
    simp only [List.nil_append, yields_nil, exists_eq_left]
    exact Iff.rfl
  | cons i a ih =>
    calc c.Yields (i :: (a ++ b)) o
        ↔ ∃ p, c.Performs i p ∧ p.Then (fun d => d.Yields (a ++ b)) o := yields_cons
      _ ↔ ∃ p, c.Performs i p ∧
            p.Then (fun d o => ∃ q, d.Yields a q ∧ q.Then (fun d => d.Yields b) o) o := by
          simp only [Outcome.then_congr fun d o => ih (c := d) (o := o)]
      _ ↔ ∃ p, c.Performs i p ∧
            ∃ q, p.Then (fun d => d.Yields a) q ∧ q.Then (fun d => d.Yields b) o := by
          simp only [Outcome.then_assoc]
      _ ↔ ∃ q, c.Yields (i :: a) q ∧ q.Then (fun d => d.Yields b) o := by
          simp only [yields_cons]
          constructor
          · intro ⟨p, performs, q, first, second⟩
            exact ⟨q, ⟨p, performs, first⟩, second⟩
          · intro ⟨q, ⟨p, performs, first⟩, second⟩
            exact ⟨p, performs, q, first, second⟩

end Context

end FalseLang
