import FalseLang.Proofs.Machine.Effects
import FalseLang.Proofs.Machine.Supply

/-
  Termination: code without loops comes to an end.

  Such code can still call itself, through a copy of a quotation or a variable,
  with nothing getting smaller but the depth that is left under the nesting limit.
  `Machine.ends_of_loopFree` is an induction on that depth and, for each depth, on
  the code: performing an instruction leaves less code, and calling a quotation
  leaves less depth for it. What follows the code is taken as a hypothesis, so that
  the frames around it play no part.

  That no loop can turn up on the way is a matter of supply: the code and the values
  at the start hold none, and nothing else ever runs.
-/

namespace FalseLang

def Instruction.isLoop : Instruction → Bool
  | .op _ .loop => true
  | _ => false

/-- Code without a loop at any level. -/
def Code.LoopFree (code : Code) : Prop := ∀ i ∈ code.parts, i.isLoop = false

instance (code : Code) : Decidable code.LoopFree :=
  inferInstanceAs (Decidable (∀ i ∈ code.parts, i.isLoop = false))

/-- A context in which no quotation has a loop at any level. -/
def Context.LoopFree (c : Context) : Prop := ∀ v, c.Has v → ∀ i ∈ v.parts, i.isLoop = false

/-- All code without loops. -/
def Supply.loopFree : Supply := .ofParts fun i => i.isLoop = false

/-! ## Runs that end -/

/-- The run of the machine comes to an end, with whatever result. -/
def Machine.Ends (m : Machine) : Prop := ∃ steps o, m.run steps = some o

/-- What a step leads to has ended or will end. -/
def Status.Ends : Status → Prop
  | .running next => next.Ends
  | .ended _ => True

namespace Machine

theorem ends_of_step {m : Machine} (h : m.step.Ends) : m.Ends := by
  cases hs : m.step with
  | running next =>
    rw [hs] at h
    obtain ⟨steps, o, ended⟩ := h
    exact ⟨steps + 1, o, by rw [run, hs]; exact ended⟩
  | ended o => exact ⟨1, o, by rw [run, hs]⟩

/-- Entering a quotation ends if running it at the greater depth does; too deep a one is
not entered at all. -/
theorem ends_enter {c : Context} {line : Nat} {body : Code} {frame : Frame} {frames : List Frame}
    (h : c.depth < c.limit → Ends ⟨{ c with depth := c.depth + 1 }, body, frame :: frames⟩) :
    (enter line body frame c frames).Ends := by
  unfold enter Action.enter
  by_cases full : c.limit ≤ c.depth
  · rw [if_pos full]
    trivial
  · rw [if_neg full]
    exact h (Nat.lt_of_not_le full)

/-- Code without loops ends if what follows it does, whatever the context is then. -/
theorem ends_of_loopFree {code : Code} {c : Context} {frames : List Frame}
    (stocked : Supply.loopFree.Stocks c) (free : ∀ i ∈ code, Supply.loopFree.instruction i)
    (follows : ∀ d, Supply.loopFree.Stocks d → c.SameDepth d → Ends ⟨d, [], frames⟩) :
    Ends ⟨c, code, frames⟩ := by
  -- The depth that is left comes first: a body may be longer than the code that calls it.
  induction left : c.limit - c.depth using Nat.strongRecOn generalizing code c frames with
  | ind budget deeper =>
    induction code generalizing c with
    | nil => exact follows c stocked ⟨rfl, rfl⟩
    | cons i rest ih =>
      have first := free i List.mem_cons_self
      have rest_ends : ∀ d, Supply.loopFree.Stocks d → c.SameDepth d →
          Ends ⟨d, rest, frames⟩ := by
        intro d stocked' same
        refine ih stocked' (fun j mem => free j (List.mem_cons_of_mem i mem)) ?_ ?_
        · exact fun e after same' => follows e after (depthHabit.trans same same')
        · rw [same.limit, same.depth, left]
      have kept := Supply.perform stocked first
      have steady : c.SameDepth _ := (Habit.instruction (H := depthHabit) i c).1
      apply ends_of_step
      show (advance i rest c frames).Ends
      unfold advance
      cases performed : i.perform c with
      | error fault d => trivial
      | ok effect d =>
        rw [performed] at kept steady
        obtain ⟨supplied, stocked'⟩ := kept
        cases effect with
        | proceed => exact rest_ends d stocked' steady
        | call body =>
          refine ends_enter fun room => ?_
          have limit : d.limit = c.limit := steady.limit
          have depth : d.depth = c.depth := steady.depth
          refine deeper (d.limit - (d.depth + 1)) (by omega) stocked' ?_ ?_ rfl
          · exact fun j mem => Supply.loopFree.of_body supplied mem
          · -- Behind the body the rest of the code goes on, at the depth it was called from.
            intro e after same
            have limit' : e.limit = d.limit := same.limit
            have depth' : e.depth = d.depth + 1 := same.depth
            apply ends_of_step
            refine rest_ends e.leave after ⟨limit'.trans limit, ?_⟩
            show e.depth - 1 = c.depth
            omega
        | loop condition body =>
          obtain ⟨line, rfl⟩ :=
            Instruction.eq_loop_of_starts (i.perform_starts c _ d performed)
          cases first _ (Instruction.mem_parts _)

end Machine

/-- **Code without loops comes to an end.** Where neither the code nor any quotation on the
stack or in a variable has a loop, at any level, the run ends under every nesting limit,
however the code calls itself. -/
theorem run_ends_of_loopFree {code : Code} {c : Context} (free : code.LoopFree)
    (held : c.LoopFree) : ∃ steps o, c.run steps code = some o := by
  have stocked : Supply.loopFree.Stocks c := fun v has => Supply.ofParts_value.2 (held v has)
  refine Machine.ends_of_loopFree stocked (fun i mem => Supply.loopFree.of_body free mem) ?_
  intro d _ _
  exact Machine.ends_of_step trivial

/-- A quotation that copies and calls itself, started from the stack, and one that calls
itself through the variable `r`, which only the default limit stops. -/
theorem run_ends_of_loopFree_recursion :
    (∃ steps o, Context.run steps [.op 1 (.primitive .duplicate), .op 1 (.execute false)]
      { stack := [.quotation [.op 1 (.primitive .duplicate), .op 1 (.execute false)]] } =
        some o) ∧
    (∃ steps o, Context.run steps [.quotation 1 [.op 1 (.letter ⟨17⟩), .op 1 .load,
          .op 1 (.execute false)], .op 1 (.letter ⟨17⟩), .op 1 .store, .op 2 (.letter ⟨17⟩),
        .op 2 .load, .op 2 (.execute false)] {} = some o) := by
  constructor
  · refine run_ends_of_loopFree (by decide) ?_
    rintro v (mem | ⟨name, bound⟩)
    · rw [List.mem_singleton.1 mem]
      decide
    · rw [Environment.get_empty] at bound
      cases bound
  · refine run_ends_of_loopFree (by decide) ?_
    rintro v (mem | ⟨name, bound⟩)
    · cases mem
    · rw [Environment.get_empty] at bound
      cases bound

end FalseLang
