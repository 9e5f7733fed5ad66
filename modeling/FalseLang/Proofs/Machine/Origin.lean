import FalseLang.Proofs.Machine.Depth
import FalseLang.Proofs.Machine.Supply

/-
  Origin: where the values of a run come from.

  Instructions copy and move quotations and names and make none. So at every point of
  a run the quotations and the names on the stack and in the variables are found in
  the code or in the values of the start, at some level (`Context.Origin`); this is
  the smallest supply that the run can be equipped from (`Supply.origin`). A variable
  is written by a name that is on the stack. Hence variables that no such name stands
  for are never written, and none is ever unbound.

  That takes a second look at what actions do to variables. A comparison of two runs
  can keep a property of the variables on the side, as long as writing a variable of
  which the comparison knows the name keeps it (`Comparison.keeping`).
-/

namespace FalseLang

/-! ## Parts of parts -/

mutual

theorem Instruction.mem_parts_of_mem_parts {i j k : Instruction} (h : j ∈ i.parts)
    (inside : k ∈ j.parts) : k ∈ i.parts := by
  match i with
  | .op line o =>
    rw [Instruction.parts, List.mem_singleton] at h
    exact h ▸ inside
  | .quotation line body =>
    rw [Instruction.parts, List.mem_cons] at h
    rcases h with same | deeper
    · exact same ▸ inside
    · exact List.mem_cons_of_mem _ (Code.mem_parts_of_mem_parts deeper inside)

/-- What is inside of a part is a part. -/
theorem Code.mem_parts_of_mem_parts {code : Code} {j k : Instruction} (h : j ∈ code.parts)
    (inside : k ∈ j.parts) : k ∈ code.parts := by
  match code with
  | [] => cases h
  | i :: rest =>
    rw [Code.parts, List.mem_append] at h ⊢
    rcases h with here | later
    · exact Or.inl (Instruction.mem_parts_of_mem_parts here inside)
    · exact Or.inr (Code.mem_parts_of_mem_parts later inside)

end

/-! ## Comparisons that keep a property of the variables -/

namespace Comparison

/-- A comparison under which the variables of the first run have a property, too. -/
def keeping (S : Comparison) (P : Environment → Prop) : Comparison :=
  { S with context := fun c d => S.context c d ∧ P c.environment }

variable {S : Comparison} {P : Environment → Prop}

theorem values_keeping {v w : Value} : (S.keeping P).Values v w ↔ S.Values v w := by
  constructor
  · intro h
    cases h with
    | integer n => exact .integer n
    | quotation body => exact .quotation body
    | name known => exact .name known
  · intro h
    cases h with
    | integer n => exact .integer n
    | quotation body => exact .quotation body
    | name known => exact .name known

theorem codes_keeping {a b : Code} (h : S.Codes a b) : (S.keeping P).Codes a b := by
  induction h with
  | nil => exact .nil
  | cons first rest ih =>
    refine .cons ?_ ih
    cases first with
    | op line perform names => exact .op line perform names
    | quotation line body => exact .quotation line body

/-- Results that correspond still do so with a property that the variables have. -/
theorem corresponds_keeping {α β : Type} {V W : α → β → Prop}
    {E : Fault → Context → Context → Prop} {r : EStateM.Result Fault Context α}
    {r' : EStateM.Result Fault Context β} (h : Corresponds S.context E V r r')
    (values : ∀ a b, V a b → W a b) (kept : P (resultState r).environment) :
    Corresponds (S.keeping P).context E W r r' := by
  cases h with
  | ok value context => exact .ok (values _ _ value) ⟨context, kept⟩
  | error fault context => exact .error fault ⟨context, kept⟩
  | excused excuse => exact .excused excuse

theorem acts_keeping {α β : Type} {V W : α → β → Prop} {x : Action α} {y : Action β}
    (h : S.Acts V x y) (values : ∀ a b, V a b → W a b)
    (same : ∀ c, (resultState (x c)).environment = c.environment) :
    (S.keeping P).Acts W x y := by
  intro c d context
  apply corresponds_keeping (h context.1) values
  rw [same]
  exact context.2

end Comparison

/-! Apart from storing, no small action writes a variable. -/

namespace Action

theorem environment_pop (symbol : Char) (c : Context) :
    (resultState (pop symbol c)).environment = c.environment := by
  unfold pop
  cases c.stack.pop symbol <;> rfl

theorem environment_look {α : Type} (f : Context → Except Fault α) (c : Context) :
    (resultState (look f c)).environment = c.environment := by
  unfold look
  cases f c <;> rfl

theorem environment_onOutput (act : Output → EStateM.Result DeviceError Output Unit)
    (c : Context) : (resultState (onOutput act c)).environment = c.environment := by
  unfold onOutput
  dsimp only
  cases act c.output <;> rfl

theorem environment_flushInput (c : Context) :
    (resultState (flushInput c)).environment = c.environment := by
  unfold flushInput
  cases c.input.flush <;> rfl

theorem environment_readChar (c : Context) :
    (resultState (readChar c)).environment = c.environment := by
  unfold readChar
  cases c.input.readChar <;> rfl

theorem environment_enter (c : Context) :
    (resultState (enter c)).environment = c.environment := by
  unfold enter
  split <;> rfl

end Action

open FalseLang.Action in
/-- A lawful comparison stays lawful with a property that storing under a name keeps. -/
theorem Comparison.Lawful.keeping {S : Comparison} {P : Environment → Prop} (hS : S.Lawful)
    (stored : ∀ {e name v}, S.name name → P e → P (e.store name v)) :
    (S.keeping P).Lawful where
  push same h := ⟨hS.push (values_keeping.1 same) h.1, h.2⟩
  pop symbol := acts_keeping (hS.pop symbol) (fun _ _ => values_keeping.2) (environment_pop symbol)
  peek symbol := acts_keeping (hS.peek symbol) (fun _ _ => values_keeping.2) (environment_look _)
  pick index := acts_keeping (hS.pick index) (fun _ _ => values_keeping.2) (environment_look _)
  load name known :=
    acts_keeping (hS.load name known) (fun _ _ => values_keeping.2) (environment_look _)
  store known same h := ⟨hS.store known (values_keeping.1 same) h.1, stored known h.2⟩
  write text := acts_keeping (hS.write text) (fun _ _ => id) (environment_onOutput _)
  flushOutput := acts_keeping hS.flushOutput (fun _ _ => id) (environment_onOutput _)
  flushInput := acts_keeping hS.flushInput (fun _ _ => id) environment_flushInput
  readChar := acts_keeping hS.readChar (fun _ _ => id) environment_readChar
  enter {c _} h :=
    corresponds_keeping (hS.enter h.1) (fun _ _ => id) (environment_enter c ▸ h.2)
  unwind k h := ⟨hS.unwind k h.1, h.2⟩
  body h := codes_keeping (hS.body h)
  later := hS.later
  excused_unwind := hS.excused_unwind

namespace Comparison.Lawful

variable {S : Comparison} (hS : S.Lawful) (strict : ∀ fault c d, ¬ S.excused fault c d)
include hS strict

/-- A step of a run that is compared with itself, without excuses. -/
theorem holds_step {m : Machine} (h : S.Machines m m) :
    m.step.Holds (fun n => S.Machines n n) (fun o => S.context o.context o.context) := by
  have stepped := hS.step h
  revert stepped
  generalize m.step = s
  intro stepped
  cases s with
  | running next =>
    cases stepped with
    | running machines => exact machines
  | ended o =>
    cases stepped with
    | ended outcomes =>
      cases outcomes with
      | ok context => exact context
      | error fault line context => exact context
    | excused excuse =>
      cases excuse with
      | fault excused => exact absurd excused (strict _ _ _)

/-- At every point of such a run, its last one included, the context corresponds to itself. -/
theorem context_after {m : Machine} (h : S.Machines m m) (n : Nat) :
    S.context (m.after n).context (m.after n).context := by
  have reached := Machine.holds_after (P := fun m => S.Machines m m)
    (fun machines => hS.holds_step strict machines) h n
  revert reached
  generalize m.after n = s
  intro reached
  cases s with
  | running next => exact Comparison.Machines.context reached
  | ended o => exact reached

end Comparison.Lawful

/-! ## Origins -/

/-- The instruction is in the code or in a value of the context, at any level. -/
def Context.Occurs (c : Context) (code : Code) (i : Instruction) : Prop :=
  i ∈ code.parts ∨ ∃ v, c.Has v ∧ i ∈ v.parts

/-- A value that was there before the code has run: a quotation or a name that occurs there,
or that is itself a value of the context. Every integer counts as having been there. -/
def Context.Origin (c : Context) (code : Code) : Value → Prop
  | .integer _ => True
  | .quotation body => (∃ line, c.Occurs code (.quotation line body)) ∨ c.Has (.quotation body)
  | .name letter => (∃ line, c.Occurs code (.op line (.letter letter))) ∨ c.Has (.name letter)

theorem Context.Occurs.inside {c : Context} {code : Code} {i j : Instruction}
    (h : c.Occurs code i) (inside : j ∈ i.parts) : c.Occurs code j := by
  rcases h with part | ⟨v, has, part⟩
  · exact Or.inl (Code.mem_parts_of_mem_parts part inside)
  · refine Or.inr ⟨v, has, ?_⟩
    cases v with
    | integer n => cases part
    | quotation body => exact Code.mem_parts_of_mem_parts part inside
    | name letter => cases part

/-- All that was there before the code has run. -/
def Supply.origin (c : Context) (code : Code) : Supply where
  instruction := c.Occurs code
  body body := c.Origin code (.quotation body)
  name letter := c.Origin code (.name letter)
  of_body {body i} known mem := by
    have inside : i ∈ body.parts := Code.mem_parts_of_mem mem i.mem_parts
    rcases known with ⟨line, occurs⟩ | has
    · exact occurs.inside (List.mem_cons_of_mem _ inside)
    · exact Or.inr ⟨_, has, inside⟩
  of_quotation {line _} occurs := Or.inl ⟨line, occurs⟩
  of_letter {line _} occurs := Or.inl ⟨line, occurs⟩

theorem Supply.origin_value {c : Context} {code : Code} {v : Value} :
    (Supply.origin c code).value v ↔ c.Origin code v := by
  cases v <;> rfl

/-- Variables in comparison with those of the start: those that were bound still are, and
those without a name are as they were. -/
structure Environment.Keeps (start : Environment) (named : Letter → Prop) (e : Environment) :
    Prop where
  bound : ∀ name, (start.get name).isSome → (e.get name).isSome
  unnamed : ∀ name, ¬ named name → e.get name = start.get name

theorem Environment.Keeps.store {start e : Environment} {named : Letter → Prop} {name : Letter}
    (h : start.Keeps named e) (known : named name) (v : Value) :
    start.Keeps named (e.store name v) := by
  refine ⟨fun other bound => ?_, fun other unknown => ?_⟩
  · by_cases same : name = other
    · subst same
      simp
    · rw [Environment.get_store_ne same]
      exact h.bound other bound
  · have apart : name ≠ other := fun same => unknown (same ▸ known)
    rw [Environment.get_store_ne apart]
    exact h.unnamed other unknown

namespace Supply

/-- The comparison of a run with itself, by what was there at its start. -/
def originComparison (c : Context) (code : Code) : Comparison :=
  (origin c code).comparison.keeping (c.environment.Keeps (origin c code).name)

theorem lawful_originComparison (c : Context) (code : Code) : (originComparison c code).Lawful :=
  lawful.keeping fun known kept => kept.store known _

theorem machines_origin (c : Context) (code : Code) :
    (originComparison c code).Machines ⟨c, code, []⟩ ⟨c, code, []⟩ := by
  have stocked : (origin c code).Stocks c := by
    intro v has
    cases v with
    | integer n => trivial
    | quotation body => exact Or.inr has
    | name letter => exact Or.inr has
  have supplied : ∀ i ∈ code, c.Occurs code i :=
    fun i mem => Or.inl (Code.mem_parts_of_mem mem i.mem_parts)
  refine ⟨⟨⟨rfl, stocked⟩, ?_⟩, Comparison.codes_keeping (codes_self supplied), .nil⟩
  exact ⟨fun _ bound => bound, fun _ _ => rfl⟩

/-- After any number of steps, running or ended, the values are from the start and the
variables compare with those of the start. -/
theorem context_after (c : Context) (code : Code) (n : Nat) :
    (origin c code).Stocks (Machine.after n ⟨c, code, []⟩).context ∧
      c.environment.Keeps (origin c code).name
        (Machine.after n ⟨c, code, []⟩).context.environment := by
  have strict : ∀ fault a b, ¬ (originComparison c code).excused fault a b :=
    fun _ _ _ excuse => excuse
  obtain ⟨⟨_, stocked⟩, kept⟩ :=
    (lawful_originComparison c code).context_after strict (machines_origin c code) n
  exact ⟨stocked, kept⟩

end Supply

/-- **A run makes no code and no names.** At every point of a run, each quotation and each name
on the stack or in a variable occurs in the code or in a value of the start, at any level, or
is such a value. So however the run ends, variables that were bound are bound, and a variable
of which there was no name holds what it held. -/
theorem values_have_origin (c : Context) (code : Code) :
    (∀ {n : Nat} {v : Value}, (Machine.after n ⟨c, code, []⟩).context.Has v →
      c.Origin code v) ∧
    (∀ {steps : Nat} {o : Outcome}, c.run steps code = some o → ∀ name : Letter,
      ((c.environment.get name).isSome → (o.context.environment.get name).isSome) ∧
      (¬ c.Origin code (.name name) →
        o.context.environment.get name = c.environment.get name)) := by
  constructor
  · intro n v has
    exact Supply.origin_value.1 ((Supply.context_after c code n).1 v has)
  · intro steps o ended name
    have kept := (Supply.context_after c code steps).2
    rw [Machine.run_eq_some_iff.1 ended] at kept
    exact ⟨kept.bound name, kept.unnamed name⟩

/-- A quotation on the stack leaves one that was inside of it, which leaves the name `f`. The
variable `f` is not bound, so that the run fails; the variable `g` has no name and keeps 7. -/
theorem values_have_origin_name :
    (Machine.after 5 ⟨{
          stack := [.quotation [.quotation 3 [.op 4 (.letter ⟨5⟩)]]]
          environment := .store .empty ⟨6⟩ (.integer 7) },
        [.op 1 (.execute false), .op 1 (.execute false), .op 2 .load], []⟩).context.stack =
      [.name ⟨5⟩] ∧
    Context.Origin {
        stack := [.quotation [.quotation 3 [.op 4 (.letter ⟨5⟩)]]]
        environment := .store .empty ⟨6⟩ (.integer 7) }
      [.op 1 (.execute false), .op 1 (.execute false), .op 2 .load] (.name ⟨5⟩) ∧
    ∃ o, Context.run 7 [.op 1 (.execute false), .op 1 (.execute false), .op 2 .load] {
        stack := [.quotation [.quotation 3 [.op 4 (.letter ⟨5⟩)]]]
        environment := .store .empty ⟨6⟩ (.integer 7) } = some o ∧
      o.result = .error ⟨2, .unboundVariable ⟨5⟩⟩ ∧
      o.context.environment.get ⟨6⟩ = some (.integer 7) := by
  obtain ⟨origin, written⟩ := values_have_origin {
      stack := [.quotation [.quotation 3 [.op 4 (.letter ⟨5⟩)]]]
      environment := .store .empty ⟨6⟩ (.integer 7) }
    [.op 1 (.execute false), .op 1 (.execute false), .op 2 .load]
  refine ⟨rfl, origin (n := 5) (Or.inl List.mem_cons_self), _, rfl, rfl, ?_⟩
  refine ((@written 7 _ rfl ⟨6⟩).2 ?_).trans rfl
  -- Neither the code nor a value of the start has the name `g` anywhere.
  have values : ∀ v, Context.Has {
        stack := [.quotation [.quotation 3 [.op 4 (.letter ⟨5⟩)]]]
        environment := .store .empty ⟨6⟩ (.integer 7) } v →
      v = .quotation [.quotation 3 [.op 4 (.letter ⟨5⟩)]] ∨ v = .integer 7 := by
    rintro v (mem | ⟨name, bound⟩)
    · exact Or.inl (List.mem_singleton.1 mem)
    · by_cases same : (⟨6⟩ : Letter) = name
      · subst same
        exact Or.inr (Option.some.inj bound).symm
      · rw [Environment.get_store_ne same, Environment.get_empty] at bound
        cases bound
  rintro (⟨line, mem | ⟨v, has, mem⟩⟩ | has)
  · simp [Code.parts, Instruction.parts] at mem
  · rcases values v has with rfl | rfl
    · simp [Value.parts, Code.parts, Instruction.parts] at mem
    · cases mem
  · rcases values _ has with same | same <;> cases same

end FalseLang
