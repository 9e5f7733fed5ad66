import FalseLang.Proofs.Machine.Simulation

/-
  Erasure: a run depends neither on lines nor on how an integer is written.

  Erased code has no lines, at any level, and has the integer in place of each
  character literal; values are erased with the code they hold. Two contexts are
  `Alike` if they are equal but for what is erased. Everything a context can be
  asked for is the same in both up to erasure, and code travels as a value, so
  both runs stay in step (`Erasure.lawful`). `run_alike` states it for whole
  runs: an error may differ in its line and in nothing else.
-/

namespace FalseLang

/-- An operation in which the literal of a character is that of its code. -/
def Op.erased : Op → Op
  | .character code => .integer code
  | o => o

mutual

def Instruction.erased : Instruction → Instruction
  | .op _ o => .op 0 o.erased
  | .quotation _ body => .quotation 0 (Code.erased body)

/-- Code without lines and without literals of characters, at every level. -/
def Code.erased : Code → Code
  | [] => []
  | i :: rest => i.erased :: Code.erased rest

end

def Value.erased : Value → Value
  | .quotation body => .quotation body.erased
  | v => v

/-- Contexts that are equal up to erasure of what is on the stack and in variables. -/
structure Context.Alike (c d : Context) : Prop where
  stack : c.stack.map Value.erased = d.stack.map Value.erased
  environment : ∀ name,
    (c.environment.get name).map Value.erased = (d.environment.get name).map Value.erased
  input : d.input = c.input
  output : d.output = c.output
  limit : d.limit = c.limit
  depth : d.depth = c.depth

/-- Outcomes with the same result, up to the line of an error, in contexts that are alike. -/
structure Outcome.Alike (o p : Outcome) : Prop where
  result : o.result.mapError Located.val = p.result.mapError Located.val
  context : o.context.Alike p.context

/-! ## Looking things up and changing all values -/

namespace Stack

theorem peek_map (f : Value → Value) (symbol : Char) (s : Stack) :
    Stack.peek symbol (s.map f) = (s.peek symbol).map f := by
  cases s <;> rfl

/-- A pick finds the value at its place, and its fault shows no value. -/
theorem pick_map (f : Value → Value) (index : Int64) (s : Stack) :
    Stack.pick (s.map f) index = (s.pick index).map f := by
  unfold Stack.pick Stack.fromTop?
  rw [List.getElem?_map, List.length_map]
  by_cases low : 0 ≤ index.toInt
  · rw [if_pos low, if_pos low]
    cases s[index.toNatClampNeg]? <;> rfl
  · rw [if_neg low, if_neg low]
    rfl

end Stack

theorem Environment.load_map (f : Value → Value) (e : Environment) (name : Letter) :
    (e.load name).map f =
      match (e.get name).map f with
      | some v => .ok v
      | none => .error (.unboundVariable name) := by
  unfold Environment.load
  cases e.get name <;> rfl

/-- The literal of a character does what the literal of its code does. -/
theorem Op.perform_erased (o : Op) : o.erased.perform = o.perform := by
  cases o <;> rfl

namespace Erasure

/-- The comparison of runs that are equal up to erasure. -/
def comparison : Comparison where
  context := Context.Alike
  body a b := a.erased = b.erased
  name _ := True
  line _ _ := True
  excused _ _ _ := False

theorem values_iff {v w : Value} : comparison.Values v w ↔ v.erased = w.erased := by
  constructor
  · intro h
    cases h with
    | integer n => rfl
    | quotation same => exact congrArg Value.quotation same
    | name known => rfl
  · intro h
    cases v <;> cases w <;> simp only [Value.erased, reduceCtorEq, Value.integer.injEq,
      Value.quotation.injEq, Value.name.injEq] at h
    · subst h
      exact .integer _
    · exact .quotation h
    · subst h
      exact .name trivial

/-- Code that is equal up to erasure corresponds instruction by instruction. -/
theorem codes_of_erased_eq {a b : Code} (h : a.erased = b.erased) : comparison.Codes a b := by
  induction a generalizing b with
  | nil =>
    cases b with
    | nil => exact .nil
    | cons j b => simp [Code.erased] at h
  | cons i a ih =>
    cases b with
    | nil => simp [Code.erased] at h
    | cons j b =>
      simp only [Code.erased, List.cons.injEq] at h
      refine .cons ?_ (ih h.2)
      cases i <;> cases j <;> simp only [Instruction.erased, Instruction.op.injEq, true_and,
        Instruction.quotation.injEq, reduceCtorEq, false_and] at h
      · refine .op trivial ?_ (fun _ _ => trivial)
        rw [← Op.perform_erased, h.1, Op.perform_erased]
      · exact .quotation trivial h.1

/-- What is looked up is the same up to erasure, and what is missing is missing in both. -/
theorem look {f : Context → Except Fault Value}
    (same : ∀ {c d}, Context.Alike c d → (f c).map Value.erased = (f d).map Value.erased) :
    comparison.Acts comparison.Values (Action.look f) (Action.look f) := by
  intro c d alike
  have found := same alike
  unfold Action.look
  cases hc : f c with
  | ok v =>
    cases hd : f d with
    | ok w =>
      rw [hc, hd] at found
      exact .ok (values_iff.2 (Except.ok.inj found)) alike
    | error fault => rw [hc, hd] at found; cases found
  | error fault =>
    cases hd : f d with
    | ok w => rw [hc, hd] at found; cases found
    | error fault' =>
      rw [hc, hd] at found
      cases found
      exact .error fault alike

theorem pop (symbol : Char) :
    comparison.Acts comparison.Values (Action.pop symbol) (Action.pop symbol) := by
  intro c d alike
  have same := alike.stack
  unfold Action.pop
  cases hc : c.stack with
  | nil =>
    rw [hc] at same
    rw [List.map_eq_nil_iff.1 same.symm]
    exact .error _ alike
  | cons v s =>
    rw [hc, List.map_cons] at same
    obtain ⟨w, t, hd, value, rest⟩ := List.map_eq_cons_iff.1 same.symm
    rw [hd]
    refine .ok (values_iff.2 value.symm) ?_
    exact ⟨rest.symm, alike.environment, alike.input, alike.output, alike.limit, alike.depth⟩

theorem sameDevices : Comparison.SameDevices comparison.context where
  output h := h.output
  input h := h.input
  withOutput _ h := ⟨h.stack, h.environment, h.input, rfl, h.limit, h.depth⟩
  withInput _ h := ⟨h.stack, h.environment, rfl, h.output, h.limit, h.depth⟩

theorem enter {c d : Context} (h : c.Alike d) :
    Corresponds Context.Alike comparison.excused Eq (Action.enter c) (Action.enter d) := by
  unfold Action.enter
  rw [h.limit, h.depth]
  split
  · exact .error _ h
  · exact .ok rfl ⟨h.stack, h.environment, h.input, h.output, rfl, rfl⟩

theorem store {c d : Context} {v w : Value} (h : c.Alike d) (name : Letter)
    (same : v.erased = w.erased) :
    Context.Alike { c with environment := c.environment.store name v }
      { d with environment := d.environment.store name w } := by
  refine ⟨h.stack, fun other => ?_, h.input, h.output, h.limit, h.depth⟩
  by_cases target : name = other
  · subst target
    simp [same]
  · rw [Environment.get_store_ne target, Environment.get_store_ne target]
    exact h.environment other

theorem lawful : comparison.Lawful where
  push same h :=
    ⟨by rw [List.map_cons, List.map_cons, values_iff.1 same, h.stack], h.environment, h.input,
      h.output, h.limit, h.depth⟩
  pop := pop
  peek symbol := look fun h => by rw [← Stack.peek_map, ← Stack.peek_map, h.stack]
  pick index := look fun h => by rw [← Stack.pick_map, ← Stack.pick_map, h.stack]
  load name _ := look fun h => by
    rw [Environment.load_map, Environment.load_map, h.environment name]
  store _ same h := store h _ (values_iff.1 same)
  write text := sameDevices.acts_onOutput _
  flushOutput := sameDevices.acts_onOutput _
  flushInput := sameDevices.acts_flushInput
  readChar := sameDevices.acts_readChar
  enter := enter
  unwind k h :=
    ⟨h.stack, h.environment, h.input, h.output, h.limit, congrArg (· - k) h.depth⟩
  body := codes_of_erased_eq
  later excuse _ := excuse
  excused_unwind _ excuse := excuse

theorem outcomes {o p : Outcome} (h : comparison.Outcomes o p) : o.Alike p := by
  cases h with
  | ok context => exact ⟨rfl, context⟩
  | error fault line context => exact ⟨rfl, context⟩

end Erasure

/-- **Neither lines nor the way an integer is written matter to a run.** Code that is equal
up to erasure, run in contexts that are alike, ends after as many steps or not at all, with
the same result up to the line of an error, and leaves contexts that are alike. -/
theorem run_alike {code code' : Code} {c d : Context} (same : code.erased = code'.erased)
    (alike : c.Alike d) (steps : Nat) :
    Option.Rel Outcome.Alike (c.run steps code) (d.run steps code') := by
  have machines : Erasure.comparison.Machines ⟨c, code, []⟩ ⟨d, code', []⟩ :=
    ⟨alike, Erasure.codes_of_erased_eq same, .nil⟩
  cases first : c.run steps code with
  | some o =>
    rcases Erasure.lawful.run machines first with ⟨p, second, outcomes⟩ | ⟨_, excused, _⟩
    · rw [Context.run, second]
      exact .some (Erasure.outcomes outcomes)
    · -- No fault is excused in this comparison.
      cases excused with
      | fault excuse => cases excuse
  | none =>
    cases second : d.run steps code' with
    | some p =>
      obtain ⟨o, ended⟩ := Erasure.lawful.run_back machines second
      rw [Context.run, ended] at first
      cases first
    | none => exact .none

/-- A division by zero in a quotation that comes from the variable `f`, written with other
literals and on other lines. -/
theorem run_alike_division :
    ∃ p, Context.run 9 [.op 7 (.integer 48), .op 8 (.letter ⟨5⟩), .op 9 .load,
          .op 9 (.execute false)]
        { environment := .store .empty ⟨5⟩
            (.quotation [.op 4 (.character 0), .op 4 (.primitive .divide)]) } = some p ∧
      p.result.mapError Located.val = .error .divisionByZero ∧ p.context.stack = [] := by
  have ended : Context.run 9 [.op 1 (.character 48), .op 1 (.letter ⟨5⟩), .op 1 .load,
          .op 2 (.execute false)]
        { environment := .store .empty ⟨5⟩
            (.quotation [.op 3 (.integer 0), .op 3 (.primitive .divide)]) } =
      some ⟨.error ⟨3, .divisionByZero⟩, {
        environment := .store .empty ⟨5⟩
          (.quotation [.op 3 (.integer 0), .op 3 (.primitive .divide)]) }⟩ := rfl
  have alike : Context.Alike
      { environment := .store .empty ⟨5⟩
          (.quotation [.op 3 (.integer 0), .op 3 (.primitive .divide)]) }
      { environment := .store .empty ⟨5⟩
          (.quotation [.op 4 (.character 0), .op 4 (.primitive .divide)]) } := by
    refine ⟨rfl, fun name => ?_, rfl, rfl, rfl, rfl⟩
    by_cases same : (⟨5⟩ : Letter) = name
    · subst same
      rfl
    · rw [Environment.get_store_ne same, Environment.get_store_ne same]
  have same : Code.erased [.op 1 (.character 48), .op 1 (.letter ⟨5⟩), .op 1 .load,
        .op 2 (.execute false)] =
      Code.erased [.op 7 (.integer 48), .op 8 (.letter ⟨5⟩), .op 9 .load,
        .op 9 (.execute false)] := rfl
  have related := run_alike same alike 9
  rw [ended] at related
  generalize Context.run 9 _ _ = r at related ⊢
  cases related with
  | some h => exact ⟨_, rfl, h.result.symm, List.map_eq_nil_iff.1 h.context.stack.symm⟩

end FalseLang
