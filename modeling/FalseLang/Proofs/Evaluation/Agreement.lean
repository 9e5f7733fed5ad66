import FalseLang.Proofs.Evaluation.Operations
import FalseLang.Proofs.Machine.Composition

/-
  Agreement: an evaluation ends with an outcome, within some bound, exactly if a
  run of the machine ends with it.

  From an evaluation to a run the induction is on the bound. A call and a round
  have a smaller one, and `Context.Yields` and its companions say how the outcomes
  of parts make up the outcome of the whole. From a run to an evaluation it is on
  the steps, and needs a meaning for the states in between: `Machine.Means` goes on
  with the code inside of the frames that wait for it (`within`). If what a step
  leads to means an outcome, so does the state before it, with a bound that is
  greater by at most two (`means_of_step`).
-/

namespace FalseLang

namespace Evaluation

/-! ## Outcomes -/

/-- The evaluation ends with the outcome, within its bound. -/
def Ends (e : Evaluation Unit) (c : Context) (o : Outcome) : Prop :=
  e c = some (o.result, o.context)

section Outcomes
variable {α : Type} {c d : Context} {o : Outcome} {line : Nat}

theorem ends_iff_of_eq {e : Evaluation Unit} {p : Outcome} (h : e c = some (p.result, p.context)) :
    Ends e c o ↔ o = p := by
  obtain ⟨result, d⟩ := p
  obtain ⟨result', d'⟩ := o
  simp only [Ends, h, Option.some.injEq, Prod.mk.injEq, Outcome.mk.injEq, @eq_comm _ result,
    @eq_comm _ d]

theorem ends_pure : Ends (pure ()) c o ↔ o = ⟨.ok (), c⟩ := ends_iff_of_eq rfl

theorem ends_bind {e f : Evaluation Unit} :
    Ends (e >>= fun _ => f) c o ↔ ∃ p, Ends e c p ∧ p.Then (Ends f) o := by
  cases first : e c with
  | none =>
    simp only [Ends, bind_apply, first, reduceCtorEq, false_and, exists_false, iff_false]
    exact nofun
  | some r =>
    obtain ⟨result, d⟩ := r
    have only : ∀ p, Ends e c p ↔ p = ⟨result, d⟩ := fun p => ends_iff_of_eq first
    simp only [only, exists_eq_left]
    cases result with
    | ok u =>
      simp only [Ends, bind_apply, first]
      rfl
    | error err =>
      refine ends_iff_of_eq ?_
      simp only [bind_apply, first]
      rfl

theorem ends_onLine_of_ok {a : Action α} {f : α → Evaluation Unit} {v : α} (h : a c = .ok v d) :
    Ends (a.onLine line >>= f) c o ↔ Ends (f v) d o := by
  unfold Ends
  rw [bind_apply, Action.onLine, h]
  rfl

theorem ends_onLine_of_error {a : Action α} {f : α → Evaluation Unit} {fault : Fault}
    (h : a c = .error fault d) :
    Ends (a.onLine line >>= f) c o ↔ o = ⟨.error ⟨line, fault⟩, d⟩ := by
  refine ends_iff_of_eq ?_
  rw [bind_apply, Action.onLine, h]
  rfl

/-- The end of a quotation, whether it fails or not. -/
def leaving (e : Evaluation Unit) : Evaluation Unit := fun c =>
  (e c).map fun (result, d) => (result, d.leave)

theorem ends_leaving {e : Evaluation Unit} :
    Ends (leaving e) c o ↔ ∃ p, Ends e c p ∧ o = ⟨p.result, p.context.leave⟩ := by
  cases inside : e c with
  | none => simp [Ends, leaving, inside]
  | some r =>
    obtain ⟨result, d⟩ := r
    have only : ∀ p, Ends e c p ↔ p = ⟨result, d⟩ := fun p => ends_iff_of_eq inside
    simp only [only, exists_eq_left]
    refine ends_iff_of_eq ?_
    rw [leaving, inside]
    rfl

variable {run : Code → Evaluation Unit} {body : Code}

theorem ends_nested_of_full (full : c.limit ≤ c.depth) :
    Ends (nested run body line) c o ↔ o = ⟨.error ⟨line, .recursionLimit c.limit⟩, c⟩ := by
  refine ends_iff_of_eq ?_
  unfold nested
  rw [if_pos full]
  rfl

theorem ends_nested_of_room (room : c.depth < c.limit) : Ends (nested run body line) c o ↔
    Ends (leaving (run body)) { c with depth := c.depth + 1 } o := by
  have inside : nested run body line c = leaving (run body) { c with depth := c.depth + 1 } := by
    unfold nested leaving
    rw [if_neg (Nat.not_le_of_lt room)]
    cases run body { c with depth := c.depth + 1 } <;> rfl
  unfold Ends
  rw [inside]

end Outcomes

/-! ## Bounds -/

/-- What the first evaluation ends with, the second does too. -/
def Extends (e e' : Evaluation Unit) : Prop := ∀ c o, Ends e c o → Ends e' c o

namespace Extends

theorem refl (e : Evaluation Unit) : Extends e e := fun _ _ h => h

theorem trans {e e' e'' : Evaluation Unit} (h : Extends e e') (h' : Extends e' e'') :
    Extends e e'' := fun c o ended => h' c o (h c o ended)

theorem bind {e e' f f' : Evaluation Unit} (h : Extends e e') (h' : Extends f f') :
    Extends (e >>= fun _ => f) (e' >>= fun _ => f') := by
  intro c o ended
  obtain ⟨p, first, follows⟩ := ends_bind.1 ended
  exact ends_bind.2 ⟨p, h c p first, follows.mono h'⟩

theorem onLine {α : Type} (a : Action α) (line : Nat) {f f' : α → Evaluation Unit}
    (h : ∀ v, Extends (f v) (f' v)) : Extends (a.onLine line >>= f) (a.onLine line >>= f') := by
  intro c o ended
  cases performed : a c with
  | ok v d =>
    rw [ends_onLine_of_ok performed] at ended ⊢
    exact h v d o ended
  | error fault d =>
    rw [ends_onLine_of_error performed] at ended ⊢
    exact ended

theorem nested {run run' : Code → Evaluation Unit} (h : ∀ code, Extends (run code) (run' code))
    (body : Code) (line : Nat) :
    Extends (nested run body line) (Evaluation.nested run' body line) := by
  intro c o ended
  by_cases full : c.limit ≤ c.depth
  · rw [ends_nested_of_full full] at ended ⊢
    exact ended
  · have room := Nat.lt_of_not_le full
    rw [ends_nested_of_room room, ends_leaving] at ended ⊢
    obtain ⟨p, inside, left⟩ := ended
    exact ⟨p, h body _ p inside, left⟩

theorem exec {nested nested' : Code → Nat → Evaluation Unit}
    {rounds rounds' : Code → Code → Nat → Evaluation Unit}
    (h : ∀ body line, Extends (nested body line) (nested' body line))
    (h' : ∀ condition body line, Extends (rounds condition body line) (rounds' condition body line))
    (i : Instruction) : Extends (exec nested rounds i) (Evaluation.exec nested' rounds' i) := by
  rw [exec_eq, exec_eq]
  refine onLine _ _ fun effect => ?_
  cases effect with
  | proceed => exact refl _
  | call body => exact h body _
  | loop condition body => exact h' condition body _

end Extends

/-! ## Rounds and code -/

/-- The rest of a round behind the condition of a loop, and the rounds after it. -/
def tested (bound : Nat) (condition body : Code) (line : Nat) : Evaluation Unit := do
  if ← (Action.popBool '#').onLine line then
    nested (run bound) body line
    rounds bound condition body line

theorem rounds_succ (bound : Nat) (condition body : Code) (line : Nat) :
    rounds (bound + 1) condition body line =
      nested (run bound) condition line >>= fun _ => tested bound condition body line := by
  unfold rounds tested Action.popBool
  simp only [pop_eq, isTrue_eq, onLine_bind, bind_assoc]
  refine bind_congr fun _ => bind_congr fun _ => bind_congr fun more => ?_
  cases more <;> rfl

theorem run_nil (bound : Nat) : run (bound + 1) [] = pure () := rfl

theorem run_cons (bound : Nat) (i : Instruction) (rest : Code) :
    run (bound + 1) (i :: rest) =
      exec (nested (run bound)) (rounds bound) i >>= fun _ => run (bound + 1) rest := rfl

theorem extends_succ (bound : Nat) : (∀ code, Extends (run bound code) (run (bound + 1) code)) ∧
    ∀ condition body line,
      Extends (rounds bound condition body line) (rounds (bound + 1) condition body line) := by
  induction bound with
  | zero => exact ⟨fun _ _ _ => nofun, fun _ _ _ _ _ => nofun⟩
  | succ bound ih =>
    obtain ⟨code, loop⟩ := ih
    have call := Extends.nested code
    constructor
    · intro code'
      induction code' with
      | nil =>
        rw [run_nil, run_nil]
        exact Extends.refl _
      | cons i rest later =>
        rw [run_cons, run_cons]
        have first := Extends.exec call loop i
        exact first.bind later
    · intro condition body line
      rw [rounds_succ, rounds_succ]
      refine (call condition line).bind (Extends.onLine _ _ fun more => ?_)
      cases more with
      | true => exact (call body line).bind (loop condition body line)
      | false => exact Extends.refl _

/-! ## Evaluation runs the machine -/

theorem nests_of_ends {run : Code → Evaluation Unit}
    (h : ∀ code c o, Ends (run code) c o → c.Yields code o) {body : Code} {line : Nat} {c : Context}
    {o : Outcome} (ended : Ends (nested run body line) c o) : c.Nests line body o := by
  by_cases full : c.limit ≤ c.depth
  · rw [ends_nested_of_full full] at ended
    exact ended ▸ .refused full
  · have room := Nat.lt_of_not_le full
    rw [ends_nested_of_room room, ends_leaving] at ended
    obtain ⟨p, inside, rfl⟩ := ended
    exact .entered room (h body _ p inside)

theorem performs_of_ends {nested : Code → Nat → Evaluation Unit}
    {rounds : Code → Code → Nat → Evaluation Unit}
    (h : ∀ body line c o, Ends (nested body line) c o → c.Nests line body o)
    (h' : ∀ condition body line c o, Ends (rounds condition body line) c o →
      c.Iterates line condition body o)
    {i : Instruction} {c : Context} {o : Outcome} (ended : Ends (exec nested rounds i) c o) :
    c.Performs i o := by
  rw [exec_eq] at ended
  cases performed : i.perform c with
  | error fault d =>
    rw [ends_onLine_of_error performed] at ended
    exact ended ▸ .fails performed
  | ok effect d =>
    rw [ends_onLine_of_ok performed] at ended
    cases effect with
    | proceed => exact ends_pure.1 ended ▸ .proceeds performed
    | call body => exact .calls performed (h body _ d o ended)
    | loop condition body => exact .loops performed (h' condition body _ d o ended)

/-- An evaluation that ends is a run that ends: on the bound, and behind a call or a round on a
smaller one. -/
theorem yields_of_ends (bound : Nat) :
    (∀ code c o, Ends (run bound code) c o → c.Yields code o) ∧
      ∀ condition body line c o, Ends (rounds bound condition body line) c o →
        c.Iterates line condition body o := by
  induction bound with
  | zero => exact ⟨fun _ _ _ => nofun, fun _ _ _ _ _ => nofun⟩
  | succ bound ih =>
    obtain ⟨code, loop⟩ := ih
    have call : ∀ body line c o, Ends (nested (run bound) body line) c o → c.Nests line body o :=
      fun _ _ _ _ => nests_of_ends code
    constructor
    · intro code'
      induction code' with
      | nil => exact fun c o ended => Context.yields_nil.2 (ends_pure.1 ended)
      | cons i rest later =>
        intro c o ended
        rw [run_cons, ends_bind] at ended
        obtain ⟨p, first, follows⟩ := ended
        exact Context.yields_cons.2 ⟨p, performs_of_ends call loop first, follows.mono later⟩
    · intro condition body line c o ended
      rw [rounds_succ, ends_bind] at ended
      obtain ⟨⟨result, d⟩, first, follows⟩ := ended
      have first := call condition line c _ first
      cases result with
      | error err => exact follows ▸ .conditionFails first
      | ok u =>
        have follows : Ends (tested bound condition body line) d o := follows
        unfold tested at follows
        cases test : Action.popBool '#' d with
        | error fault d' =>
          rw [ends_onLine_of_error test] at follows
          exact follows ▸ .testFails first test
        | ok more d' =>
          rw [ends_onLine_of_ok test] at follows
          cases more with
          | false => exact ends_pure.1 follows ▸ .stops first test
          | true =>
            obtain ⟨⟨result, f⟩, second, later⟩ := ends_bind.1 follows
            have second := call body line d' _ second
            cases result with
            | error err => exact later ▸ .bodyFails first test second
            | ok u => exact .again first test second (loop condition body line f o later)

/-! ## Runs of the machine evaluate -/

/-- What is evaluated behind the quotation that a frame was waiting for. -/
def goOn (bound : Nat) : Frame → Evaluation Unit
  | .resume rest => run bound rest
  | .test l rest => do
    tested bound l.condition l.body l.line
    run bound rest
  | .again l rest => do
    rounds bound l.condition l.body l.line
    run bound rest

theorem goOn_test (bound : Nat) (l : Loop) (rest : Code) : goOn bound (.test l rest) =
    (Action.popBool '#').onLine l.line >>= fun more =>
      if more then nested (run bound) l.body l.line >>= fun _ => goOn bound (.again l rest)
      else run bound rest := by
  unfold goOn tested
  simp only [bind_assoc]
  refine bind_congr fun more => ?_
  cases more with
  | true => exact bind_assoc _ _ _
  | false => exact pure_bind _ _

/-- An evaluation inside of frames, the innermost first: each is left and then gone on with. -/
def within (bound : Nat) : List Frame → Evaluation Unit → Evaluation Unit
  | [], e => e
  | frame :: frames, e => within bound frames (leaving e >>= fun _ => goOn bound frame)

end Evaluation

/-- What a machine still has to do, as an evaluation. -/
def Machine.Means (m : Machine) (bound : Nat) (o : Outcome) : Prop :=
  Evaluation.Ends (Evaluation.within bound m.frames (Evaluation.run bound m.code)) m.context o

namespace Evaluation

theorem Extends.tested (bound : Nat) (condition body : Code) (line : Nat) :
    Extends (tested bound condition body line)
      (Evaluation.tested (bound + 1) condition body line) := by
  obtain ⟨code, loop⟩ := extends_succ bound
  refine Extends.onLine _ _ fun more => ?_
  cases more with
  | true => exact (Extends.nested code body line).bind (loop condition body line)
  | false => exact Extends.refl _

theorem Extends.goOn (bound : Nat) (frame : Frame) :
    Extends (goOn bound frame) (Evaluation.goOn (bound + 1) frame) := by
  obtain ⟨code, loop⟩ := extends_succ bound
  cases frame with
  | resume rest => exact code rest
  | test l rest => exact (Extends.tested _ _ _ _).bind (code rest)
  | again l rest => exact (loop _ _ _).bind (code rest)

/-- Frames make the same of what ends the same. -/
theorem ends_within {bound bound' : Nat} {frames : List Frame} {e e' : Evaluation Unit}
    {c c' : Context} {o : Outcome} (later : ∀ frame, Extends (goOn bound frame) (goOn bound' frame))
    (h : ∀ o, Ends e c o → Ends e' c' o) (ended : Ends (within bound frames e) c o) :
    Ends (within bound' frames e') c' o := by
  induction frames generalizing e e' with
  | nil => exact h o ended
  | cons frame frames ih =>
    refine ih (fun o ended => ?_) ended
    rw [ends_bind] at ended ⊢
    obtain ⟨p, first, follows⟩ := ended
    obtain ⟨q, inside, left⟩ := ends_leaving.1 first
    exact ⟨p, ends_leaving.2 ⟨q, h q inside, left⟩, follows.mono (later frame)⟩

/-- Frames make the same of an action and of what follows where it has ended. -/
theorem ends_within_onLine {α : Type} {bound bound' line : Nat} {frames : List Frame}
    {a : Action α} {f : α → Evaluation Unit} {v : α} {e : Evaluation Unit} {c d : Context}
    {o : Outcome} (performed : a c = .ok v d)
    (later : ∀ frame, Extends (goOn bound frame) (goOn bound' frame)) (follows : Extends e (f v))
    (ended : Ends (within bound frames e) d o) :
    Ends (within bound' frames (a.onLine line >>= f)) c o :=
  ends_within later (fun o ended => (ends_onLine_of_ok performed).2 (follows d o ended)) ended

/-- An error leaves the frames one after the other. -/
theorem ends_within_of_error {bound : Nat} {frames : List Frame} {e : Evaluation Unit}
    {c d : Context} {err : RuntimeError} (h : Ends e c ⟨.error err, d⟩) :
    Ends (within bound frames e) c ⟨.error err, d.unwind frames⟩ := by
  induction frames generalizing e d with
  | nil => exact h
  | cons frame frames ih =>
    have left : Ends (leaving e) c ⟨.error err, d.leave⟩ := ends_leaving.2 ⟨_, h, rfl⟩
    exact ih (ends_bind.2 ⟨_, left, rfl⟩)

end Evaluation

/-- What a step leads to means the outcome. -/
def Status.Means (bound : Nat) (o : Outcome) : Status → Prop
  | .running m => m.Means bound o
  | .ended p => o = p

namespace Machine

open Evaluation

variable {bound line : Nat} {c d : Context} {frames : List Frame} {o : Outcome}

theorem ends_of_fail {fault : Fault} {e : Evaluation Unit}
    (h : Ends e c ⟨.error ⟨line, fault⟩, d⟩)
    (means : (fail line fault d frames).Means bound o) : Ends (within bound frames e) c o :=
  means ▸ ends_within_of_error h

theorem ends_of_enter {body : Code} {frame : Frame}
    (means : (enter line body frame c frames).Means bound o) :
    Ends (within bound frames (nested (Evaluation.run bound) body line >>= fun _ =>
      goOn bound frame)) c o := by
  unfold enter Action.enter at means
  by_cases full : c.limit ≤ c.depth
  · rw [if_pos full] at means
    exact ends_of_fail (ends_bind.2 ⟨_, (ends_nested_of_full full).2 rfl, rfl⟩) means
  · rw [if_neg full] at means
    refine ends_within (fun _ => .refl _) (fun o ended => ?_) means
    rw [ends_bind] at ended ⊢
    obtain ⟨p, inside, follows⟩ := ended
    exact ⟨p, (ends_nested_of_room (Nat.lt_of_not_le full)).2 inside, follows⟩

theorem ends_of_test {l : Loop} {rest : Code} (means : (test l rest c frames).Means bound o) :
    Ends (within bound frames (goOn bound (.test l rest))) c o := by
  rw [goOn_test]
  unfold test at means
  cases tested : Action.popBool '#' c with
  | error fault d =>
    rw [tested] at means
    exact ends_of_fail ((ends_onLine_of_error tested).2 rfl) means
  | ok more d =>
    rw [tested] at means
    cases more with
    | true => exact ends_within_onLine tested (fun _ => .refl _) (.refl _) (ends_of_enter means)
    | false => exact ends_within_onLine tested (fun _ => .refl _) (.refl _) means

/-- Behind the end of a quotation its frame is gone on with, in the context that is left. -/
theorem means_of_left {frame : Frame} {e : Evaluation Unit}
    (later : Extends e (goOn (bound + 1) frame)) (ended : Ends (within bound frames e) c.leave o) :
    Machine.Means ⟨c, [], frame :: frames⟩ (bound + 1) o := by
  show Ends (within _ _ (leaving (Evaluation.run (bound + 1) []) >>= fun _ => _)) c o
  refine ends_within (Extends.goOn bound) (fun o ended => ?_) ended
  rw [run_nil, ends_bind]
  exact ⟨⟨.ok (), c.leave⟩, ends_leaving.2 ⟨_, ends_pure.2 rfl, rfl⟩, later _ o ended⟩

theorem means_of_finish (means : (finish c frames).Means bound o) :
    Machine.Means ⟨c, [], frames⟩ (bound + 1) o := by
  match frames with
  | [] => exact ends_pure.2 means
  | .resume rest :: frames => exact means_of_left (Extends.goOn bound (.resume rest)) means
  | .test l rest :: frames =>
    exact means_of_left (Extends.goOn bound (.test l rest)) (ends_of_test means)
  | .again l rest :: frames =>
    refine means_of_left ?_ (ends_of_enter means)
    have round : goOn (bound + 1) (.again l rest) =
        nested (Evaluation.run bound) l.condition l.line >>= fun _ =>
          tested bound l.condition l.body l.line >>= fun _ => Evaluation.run (bound + 1) rest := by
      rw [goOn, rounds_succ, bind_assoc]
    rw [round]
    exact (Extends.refl _).bind ((Extends.refl _).bind ((extends_succ bound).1 rest))

theorem means_of_advance {i : Instruction} {rest : Code}
    (means : (advance i rest c frames).Means bound o) :
    Machine.Means ⟨c, i :: rest, frames⟩ (bound + 2) o := by
  have later : ∀ frame, Extends (goOn bound frame) (goOn (bound + 2) frame) := fun frame =>
    (Extends.goOn bound frame).trans (Extends.goOn (bound + 1) frame)
  have code : Extends (Evaluation.run bound rest) (Evaluation.run (bound + 2) rest) :=
    later (.resume rest)
  unfold Machine.Means
  rw [run_cons, exec_eq, bind_assoc]
  unfold advance at means
  cases performed : i.perform c with
  | error fault d =>
    rw [performed] at means
    exact ends_of_fail ((ends_onLine_of_error performed).2 rfl) means
  | ok effect d =>
    rw [performed] at means
    cases effect with
    | proceed => exact ends_within_onLine performed later code means
    | call body =>
      have called := Extends.nested (extends_succ bound).1 body i.line
      exact ends_within_onLine performed later (called.bind code) (ends_of_enter means)
    | loop condition body =>
      refine ends_within_onLine performed later ?_ (ends_of_enter means)
      show Extends _ (rounds (bound + 1) condition body i.line >>= fun _ => _)
      rw [rounds_succ, bind_assoc]
      exact (Extends.refl _).bind ((Extends.refl _).bind code)

theorem means_of_step {m : Machine} (means : m.step.Means bound o) : ∃ bound, m.Means bound o := by
  obtain ⟨c, code, frames⟩ := m
  cases code with
  | nil => exact ⟨_, means_of_finish means⟩
  | cons i rest => exact ⟨_, means_of_advance means⟩

theorem means_of_run {n : Nat} {m : Machine} (ended : m.run n = some o) :
    ∃ bound, m.Means bound o := by
  induction n generalizing m with
  | zero => cases ended
  | succ n ih =>
    rw [run_succ] at ended
    cases stepped : m.step with
    | ended p =>
      rw [stepped] at ended
      have means : m.step.Means 0 o := by
        rw [stepped]
        exact (Option.some.inj ended).symm
      exact means_of_step means
    | running next =>
      rw [stepped] at ended
      obtain ⟨bound, means⟩ := ih ended
      have means : m.step.Means bound o := by
        rw [stepped]
        exact means
      exact means_of_step means

end Machine

/-- **Evaluation is what the machine does.** With enough bound code evaluates to a result, in a
context, exactly if with enough steps the machine ends with this result and context. -/
theorem Evaluation.exists_run_iff {code : Code} {c d : Context}
    {result : Except RuntimeError Unit} :
    (∃ bound, run bound code c = some (result, d)) ↔
      ∃ steps, c.run steps code = some ⟨result, d⟩ := by
  constructor
  · intro ⟨bound, ended⟩
    exact (yields_of_ends bound).1 code c ⟨result, d⟩ ended
  · intro ⟨steps, ended⟩
    exact Machine.means_of_run ended

end FalseLang
