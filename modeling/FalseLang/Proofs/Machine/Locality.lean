import FalseLang.Proofs.Machine.Simulation

/-
  Locality: a run does not see what lies below the values it uses, nor the
  variables it does not use.

  `Extends below base c d` says that `d` is `c` with more values at the bottom of
  the stack and with the variables of `base` behind its own. Instructions take
  their operands from the top, `pick` counts from the top, and a variable that is
  bound stays bound; so the two runs stay in step until the shorter one misses
  something (`Fault.lacks`). `run_extends` states it for whole runs.
-/

namespace FalseLang

/-- The faults that more values or more variables could have prevented. -/
def Fault.lacks : Fault → Bool
  | .stackUnderflow _ | .indexOutOfRange .. | .unboundVariable _ => true
  | _ => false

/-- One context is another with values below its stack and variables behind its own. -/
structure Extends (below : Stack) (base : Environment) (c d : Context) : Prop where
  stack : d.stack = c.stack ++ below
  environment : ∀ name, d.environment.get name =
    (c.environment.get name).or (base.get name)
  input : d.input = c.input
  output : d.output = c.output
  limit : d.limit = c.limit
  depth : d.depth = c.depth

namespace Extends

variable {below : Stack} {base : Environment} {c d : Context}

/-- The comparison of a run with one that starts with more. -/
def comparison (below : Stack) (base : Environment) : Comparison :=
  .sameCode (Extends below base) (fun fault _ _ => fault.lacks = true)

theorem withStack (h : Extends below base c d) (s : Stack) :
    Extends below base { c with stack := s } { d with stack := s ++ below } :=
  ⟨rfl, h.environment, h.input, h.output, h.limit, h.depth⟩

theorem sameDevices : Comparison.SameDevices (comparison below base).context where
  output h := h.output
  input h := h.input
  withOutput _ h := ⟨h.stack, h.environment, h.input, rfl, h.limit, h.depth⟩
  withInput _ h := ⟨h.stack, h.environment, rfl, h.output, h.limit, h.depth⟩

theorem pop (symbol : Char) : (comparison below base).Acts (comparison below base).Values
    (Action.pop symbol) (Action.pop symbol) := by
  intro c d h
  unfold Action.pop
  rw [h.stack]
  cases hs : c.stack with
  | nil => exact .excused (fun _ _ => rfl)
  | cons v rest => exact .ok (Comparison.sameCode_values.2 rfl) (h.withStack rest)

/-- Looking up what the shorter context has gives the same in the longer one. -/
theorem look {f : Context → Except Fault Value}
    (found : ∀ {c d v}, Extends below base c d → f c = .ok v → f d = .ok v)
    (missing : ∀ {c fault}, f c = .error fault → fault.lacks = true) :
    (comparison below base).Acts (comparison below base).Values (Action.look f)
      (Action.look f) := by
  intro c d h
  unfold Action.look
  cases hf : f c with
  | ok v =>
    rw [found h hf]
    exact .ok (Comparison.sameCode_values.2 rfl) h
  | error fault => exact .excused (fun _ _ => missing hf)

theorem peek_found {symbol : Char} {v : Value} (h : Extends below base c d)
    (found : c.stack.peek symbol = .ok v) : d.stack.peek symbol = .ok v := by
  rw [h.stack]
  cases hs : c.stack with
  | nil => rw [hs] at found; cases found
  | cons w rest => rw [hs] at found; exact found

theorem peek_missing {s : Stack} {symbol : Char} {fault : Fault}
    (h : s.peek symbol = .error fault) : fault.lacks = true := by
  cases s with
  | nil => cases h; rfl
  | cons v rest => cases h

theorem pick_found {index : Int64} {v : Value} (h : Extends below base c d)
    (found : c.stack.pick index = .ok v) : d.stack.pick index = .ok v := by
  unfold Stack.pick Stack.fromTop? at found ⊢
  by_cases low : 0 ≤ index.toInt
  · rw [if_pos low] at found ⊢
    cases hv : c.stack[index.toNatClampNeg]? with
    | none => rw [hv] at found; cases found
    | some w =>
      -- The index stays inside the upper part of the longer stack.
      have inside : index.toNatClampNeg < c.stack.length := (List.getElem?_eq_some_iff.1 hv).1
      rw [hv] at found
      rw [h.stack, List.getElem?_append_left inside, hv]
      exact found
  · rw [if_neg low] at found
    cases found

theorem pick_missing {s : Stack} {index : Int64} {fault : Fault}
    (h : s.pick index = .error fault) : fault.lacks = true := by
  unfold Stack.pick at h
  split at h
  · cases h
  · cases h; rfl

theorem load_found {name : Letter} {v : Value} (h : Extends below base c d)
    (found : c.environment.load name = .ok v) : d.environment.load name = .ok v := by
  unfold Environment.load at found ⊢
  rw [h.environment]
  cases hv : c.environment.get name with
  | none => rw [hv] at found; cases found
  | some w => rw [hv] at found; exact found

theorem load_missing {e : Environment} {name : Letter} {fault : Fault}
    (h : e.load name = .error fault) : fault.lacks = true := by
  unfold Environment.load at h
  split at h
  · cases h
  · cases h; rfl

theorem store (h : Extends below base c d) (name : Letter) (v : Value) :
    Extends below base { c with environment := c.environment.store name v }
      { d with environment := d.environment.store name v } := by
  refine ⟨h.stack, fun other => ?_, h.input, h.output, h.limit, h.depth⟩
  by_cases same : name = other
  · subst same
    simp
  · rw [Environment.get_store_ne same, Environment.get_store_ne same]
    exact h.environment other

theorem enter (h : Extends below base c d) :
    Corresponds (Extends below base) (comparison below base).excused Eq (Action.enter c)
      (Action.enter d) := by
  unfold Action.enter
  rw [h.limit, h.depth]
  split
  · exact .error _ h
  · exact .ok rfl ⟨h.stack, h.environment, h.input, h.output, rfl, rfl⟩

theorem lawful (below : Stack) (base : Environment) : (comparison below base).Lawful where
  push same h := by
    obtain rfl := Comparison.sameCode_values.1 same
    exact ⟨congrArg (_ :: ·) h.stack, h.environment, h.input, h.output, h.limit, h.depth⟩
  pop := pop
  peek symbol := look peek_found peek_missing
  pick index := look pick_found pick_missing
  load name _ := look load_found load_missing
  store _ same h := by
    obtain rfl := Comparison.sameCode_values.1 same
    exact h.store _ _
  write text := sameDevices.acts_onOutput _
  flushOutput := sameDevices.acts_onOutput _
  flushInput := sameDevices.acts_flushInput
  readChar := sameDevices.acts_readChar
  enter := enter
  unwind k h :=
    ⟨h.stack, h.environment, h.input, h.output, h.limit, congrArg (· - k) h.depth⟩
  body same := same ▸ Comparison.sameCode_codes _
  later excuse _ := excuse
  excused_unwind _ excuse := excuse

/-- More values below and more variables, where those that are bound stay as they are. -/
theorem of_agrees
    (agrees : ∀ name v, c.environment.get name = some v → base.get name = some v) :
    Extends below base c { c with stack := c.stack ++ below, environment := base } := by
  refine ⟨rfl, fun name => ?_, rfl, rfl, rfl, rfl⟩
  cases bound : c.environment.get name with
  | none => rfl
  | some v => exact agrees name v bound

/-- A run that ends, ends alike with more, or it has ended for want of something. -/
theorem run {steps : Nat} {code : Code} {o : Outcome} (h : Extends below base c d)
    (ended : c.run steps code = some o) :
    (∃ d', d.run steps code = some ⟨o.result, d'⟩ ∧ Extends below base o.context d') ∨
      ∃ e, o.result = .error e ∧ e.val.lacks = true := by
  rcases (lawful below base).run (Comparison.sameCode_machines h code) ended with
    ⟨p, finished, same⟩ | ⟨d', excused, _⟩
  · obtain ⟨result, extended⟩ := Comparison.sameCode_outcomes same
    obtain ⟨result', d'⟩ := p
    subst result
    exact Or.inl ⟨d', finished, extended⟩
  · cases excused with
    | fault lacking => exact Or.inr ⟨_, rfl, lacking⟩

end Extends

/-- **A run sees only what it uses.** Values below the stack and variables that are not
bound change nothing in a run that ends, unless it ends for want of them. -/
theorem run_extends {steps : Nat} {code : Code} {c : Context} (below : Stack)
    (base : Environment)
    (agrees : ∀ name v, c.environment.get name = some v → base.get name = some v) :
    (∀ c', c.run steps code = some ⟨.ok (), c'⟩ →
      ∃ d', Context.run steps code { c with stack := c.stack ++ below, environment := base } =
          some ⟨.ok (), d'⟩ ∧ Extends below base c' d') ∧
    (∀ e c', c.run steps code = some ⟨.error e, c'⟩ → e.val.lacks = false →
      ∃ d', Context.run steps code { c with stack := c.stack ++ below, environment := base } =
          some ⟨.error e, d'⟩ ∧ Extends below base c' d') := by
  have start : Extends below base c _ := Extends.of_agrees agrees
  constructor
  · intro c' ended
    rcases start.run ended with alike | ⟨e, failed, _⟩
    · exact alike
    · cases failed
  · intro e c' ended enough
    rcases start.run ended with alike | ⟨e', failed, lacking⟩
    · exact alike
    · cases failed
      rw [lacking] at enough
      cases enough

/-- A call of the variable `f` above another value and beside the variable `g`, and the
same call followed by a division by zero. -/
theorem run_extends_call :
    (∃ d', Context.run 9 [.op 1 (.letter ⟨5⟩), .op 1 .load, .op 1 (.execute false)]
        { stack := [.integer 3, .integer 9],
          environment := .store (.store .empty ⟨5⟩ (.quotation [.op 1 (.primitive .negate)]))
            ⟨6⟩ (.integer 7) } =
          some ⟨.ok (), d'⟩ ∧
      d'.stack = [.integer (-3), .integer 9] ∧ d'.environment.get ⟨6⟩ = some (.integer 7)) ∧
    (∃ d', Context.run 9 [.op 1 (.letter ⟨5⟩), .op 1 .load, .op 1 (.execute false),
          .op 2 (.integer 0), .op 2 (.primitive .divide)]
        { stack := [.integer 3, .integer 9],
          environment := .store (.store .empty ⟨5⟩ (.quotation [.op 1 (.primitive .negate)]))
            ⟨6⟩ (.integer 7) } =
          some ⟨.error ⟨2, .divisionByZero⟩, d'⟩ ∧
      d'.stack = [.integer 9] ∧ d'.environment.get ⟨6⟩ = some (.integer 7)) := by
  have agrees : ∀ name v,
      (Environment.empty.store ⟨5⟩ (.quotation [.op 1 (.primitive .negate)])).get name = some v →
      ((Environment.empty.store ⟨5⟩ (.quotation [.op 1 (.primitive .negate)])).store ⟨6⟩
        (.integer 7)).get name = some v := by
    intro name v bound
    by_cases same : (⟨6⟩ : Letter) = name
    · subst same
      cases bound
    · rw [Environment.get_store_ne same]
      exact bound
  constructor
  · have ran : Context.run 9 [.op 1 (.letter ⟨5⟩), .op 1 .load, .op 1 (.execute false)]
        { stack := [.integer 3]
          environment := .store .empty ⟨5⟩ (.quotation [.op 1 (.primitive .negate)]) } =
        some ⟨.ok (), {
          stack := [.integer (-3)]
          environment := .store .empty ⟨5⟩ (.quotation [.op 1 (.primitive .negate)]) }⟩ := rfl
    obtain ⟨d', ended, extended⟩ := (run_extends [.integer 9] _ agrees).1 _ ran
    exact ⟨d', ended, extended.stack, extended.environment ⟨6⟩⟩
  · have ran : Context.run 9 [.op 1 (.letter ⟨5⟩), .op 1 .load, .op 1 (.execute false),
          .op 2 (.integer 0), .op 2 (.primitive .divide)]
        { stack := [.integer 3]
          environment := .store .empty ⟨5⟩ (.quotation [.op 1 (.primitive .negate)]) } =
        some ⟨.error ⟨2, .divisionByZero⟩, {
          environment := .store .empty ⟨5⟩ (.quotation [.op 1 (.primitive .negate)]) }⟩ := rfl
    obtain ⟨d', ended, extended⟩ := (run_extends [.integer 9] _ agrees).2 _ _ ran rfl
    exact ⟨d', ended, extended.stack, extended.environment ⟨6⟩⟩

end FalseLang
