import FalseLang.Proofs.Machine.Inlining

/-
  Unrolling: a loop is its first round and the rest of it.

  The unrolled code runs the condition by a call, tests what it has left by a
  conditional call, and in that call runs the body and the whole loop again. Both the
  loop and the unrolled code run the condition first and then either stop or go on
  (`Context.Decides`). They go on with the same code (`Code.roundOf`), the loop in place
  and the unrolled code one level deeper (`yields_loopOf_ok`, `yields_unrolled_ok`). So
  `loop_unrolled` comes down to code in place and in a quotation.

  Lines and symbols are named by errors only. A run that ends well is a run on any
  other lines, and a test may be the one of either instruction.
-/

namespace FalseLang

/-- The code of a loop, with the lines of its instructions. -/
def Code.loopOf (i j k : Nat) (condition body : Code) : Code :=
  [.quotation i condition, .quotation j body, .op k .loop]

/-- What is behind the test of a round: the body, and the loop from its start. It has the lines
of its places in the unrolled code. -/
def Code.roundOf (line : Nat → Nat) (condition body : Code) : Code :=
  [.quotation (line 3) body, .op (line 4) (.execute false), .quotation (line 5) condition,
    .quotation (line 6) body, .op (line 7) .loop]

/-- A loop with its first round unrolled. The lines are given by the places of the
instructions. -/
def Code.unrolled (line : Nat → Nat) (condition body : Code) : Code :=
  [.quotation (line 0) condition, .op (line 1) (.execute false),
    .quotation (line 2) (roundOf line condition body), .op (line 8) (.execute true)]

/-! ## Decisions -/

/-- An integer is on top of the stack, and it is taken as a truth value. -/
def Context.Tests (c : Context) (more : Bool) (d : Context) : Prop :=
  ∃ n rest, c.stack = .integer n :: rest ∧ more = (n != 0) ∧ d = { c with stack := rest }

theorem Action.popBool_eq_ok_iff (symbol : Char) {c d : Context} {more : Bool} :
    popBool symbol c = .ok more d ↔ c.Tests more d := by
  obtain ⟨stack, environment, input, output, limit, depth⟩ := c
  constructor
  · intro tested
    cases stack with
    | nil => cases tested
    | cons v rest =>
      cases v with
      | integer n =>
        cases tested
        exact ⟨n, rest, rfl, rfl, rfl⟩
      | quotation body => cases tested
      | name letter => cases tested
  · intro ⟨n, rest, top, value, after⟩
    dsimp only at top
    rw [top, value, after]
    rfl

namespace Context

variable {c d : Context} {C B R : Code} {more : Bool}

/-- A quotation that has ended well ends alike on any line. -/
theorem Nests.relined {line : Nat} (h : c.Nests line B ⟨.ok (), d⟩) (line' : Nat) :
    c.Nests line' B ⟨.ok (), d⟩ := by
  cases h with
  | entered room inside => exact .entered room inside

/-- A condition is run one level deeper, and the integer it leaves is the decision. -/
def Decides (condition : Code) (c : Context) (more : Bool) (d : Context) : Prop :=
  ∃ line a, c.Nests line condition ⟨.ok (), a⟩ ∧ a.Tests more d

namespace Decides

theorem sameDepth (h : Decides C c more d) : c.SameDepth d := by
  obtain ⟨line, a, nests, n, rest, _, _, after⟩ := h
  obtain ⟨limit, depth⟩ := nests.sameDepth
  rw [after]
  exact ⟨limit, depth⟩

theorem room (h : Decides C c more d) : c.depth < c.limit := by
  obtain ⟨line, a, nests, _⟩ := h
  cases nests with
  | entered room inside => exact room

/-- The decision is the same under a limit raised by one. -/
theorem raised (h : Decides C c more d) :
    Decides C { c with limit := c.limit + 1 } more { d with limit := c.limit + 1 } := by
  obtain ⟨line, a, nests, n, rest, top, value, rfl⟩ := h
  have runs := (yields_execute 0 line).2 nests
  have higher := (yields_execute 0 line).1 (runs.raised Outcome.not_hitsLimit_ok ⟨rfl, rfl⟩)
  exact ⟨line, _, higher, n, rest, top, value, rfl⟩

end Decides

/-! ## Rounds -/

/-- A loop that has ended well ends alike on any line. -/
theorem Iterates.relined {line : Nat} {o : Outcome} (h : c.Iterates line C B o)
    (fine : o.result = .ok ()) (line' : Nat) : c.Iterates line' C B o := by
  induction h with
  | conditionFails | testFails | bodyFails => cases fine
  | stops first tested => exact .stops (first.relined line') tested
  | again first tested second later ih =>
    exact .again (first.relined line') tested (second.relined line') (ih fine)

/-- A loop stops at once, or it runs its body and then all of it again. The lines are those of
any instructions that do so. -/
theorem iterates_ok {line : Nat} (j k : Nat) : c.Iterates line C B ⟨.ok (), d⟩ ↔
    Decides C c false d ∨ ∃ a, Decides C c true a ∧
      ∃ b, a.Nests j B ⟨.ok (), b⟩ ∧ b.Iterates k C B ⟨.ok (), d⟩ := by
  constructor
  · intro iterates
    cases iterates with
    | stops first tested => exact .inl ⟨line, _, first, (Action.popBool_eq_ok_iff '#').1 tested⟩
    | again first tested second later =>
      have decides : Decides C c true _ := ⟨line, _, first, (Action.popBool_eq_ok_iff '#').1 tested⟩
      exact .inr ⟨_, decides, _, second.relined j, later.relined rfl k⟩
  · intro rounds
    rcases rounds with ⟨_, a, first, tests⟩ | ⟨b, ⟨_, a, first, tests⟩, f, second, later⟩
    · exact .stops (first.relined line) ((Action.popBool_eq_ok_iff '#').2 tests)
    · exact .again (first.relined line) ((Action.popBool_eq_ok_iff '#').2 tests)
        (second.relined line) (later.relined rfl line)

theorem yields_loopOf {i j k : Nat} {o : Outcome} :
    c.Yields (Code.loopOf i j k C B) o ↔ c.Iterates k C B o := by
  unfold Code.loopOf
  rw [yields_cons_of_proceed (d := { c with stack := .quotation C :: c.stack }) rfl,
    yields_cons_of_proceed (d := { c with stack := .quotation B :: .quotation C :: c.stack }) rfl,
    yields_singleton]
  exact performs_iff_of_loop rfl

/-- To call a quotation, behind which there is more code. -/
theorem yields_execute_append_ok {j k : Nat} {rest : Code} :
    c.Yields ([.quotation j B, .op k (.execute false)] ++ rest) ⟨.ok (), d⟩ ↔
      ∃ a, c.Nests k B ⟨.ok (), a⟩ ∧ a.Yields rest ⟨.ok (), d⟩ := by
  rw [yields_append]
  constructor
  · intro ⟨⟨result, a⟩, first, behind⟩
    cases result with
    | ok u => exact ⟨a, (yields_execute j k).1 first, behind⟩
    | error e => cases behind
  · intro ⟨a, first, behind⟩
    exact ⟨⟨.ok (), a⟩, (yields_execute j k).2 first, behind⟩

/-- A conditional call takes the decision from below the quotation. -/
theorem yields_choice_ok {j k : Nat} :
    c.Yields [.quotation j R, .op k (.execute true)] ⟨.ok (), d⟩ ↔
      c.Tests false d ∨ ∃ a, c.Tests true a ∧ a.Nests k R ⟨.ok (), d⟩ := by
  rw [yields_cons_of_proceed (d := { c with stack := .quotation R :: c.stack }) rfl,
    yields_singleton]
  have performed : Instruction.perform (.op k (.execute true))
      { c with stack := .quotation R :: c.stack } =
      EStateM.bind (Action.popBool '?')
        (fun more => if more then pure (.call R) else pure .proceed) c := rfl
  simp only [← Action.popBool_eq_ok_iff '?']
  unfold EStateM.bind at performed
  cases tested : Action.popBool '?' c with
  | error fault a =>
    rw [tested] at performed
    rw [performs_iff_of_fault (d := a) performed]
    simp
  | ok more a =>
    rw [tested] at performed
    cases more with
    | false =>
      rw [performs_iff_of_proceed (d := a) performed]
      simp [eq_comm]
    | true =>
      rw [performs_iff_of_call (d := a) performed]
      simp [Instruction.line]

theorem yields_roundOf_ok {line : Nat → Nat} : c.Yields (Code.roundOf line C B) ⟨.ok (), d⟩ ↔
    ∃ b, c.Nests (line 4) B ⟨.ok (), b⟩ ∧ b.Iterates (line 7) C B ⟨.ok (), d⟩ := by
  simp only [← yields_loopOf (i := line 5) (j := line 6)]
  exact yields_execute_append_ok

/-- The loop goes on with the round in place. -/
theorem yields_loopOf_ok {i j k : Nat} (line : Nat → Nat) :
    c.Yields (Code.loopOf i j k C B) ⟨.ok (), d⟩ ↔
      Decides C c false d ∨ ∃ a, Decides C c true a ∧
        a.Yields (Code.roundOf line C B) ⟨.ok (), d⟩ := by
  rw [yields_loopOf, iterates_ok (line 4) (line 7)]
  simp only [yields_roundOf_ok]

/-- The unrolled code goes on with the round in a quotation. -/
theorem yields_unrolled_ok {line : Nat → Nat} :
    c.Yields (Code.unrolled line C B) ⟨.ok (), d⟩ ↔
      Decides C c false d ∨ ∃ a, Decides C c true a ∧
        a.Nests (line 8) (Code.roundOf line C B) ⟨.ok (), d⟩ := by
  refine yields_execute_append_ok.trans ?_
  simp only [yields_choice_ok]
  constructor
  · intro ⟨a, first, behind⟩
    rcases behind with tests | ⟨b, tests, nests⟩
    · exact .inl ⟨_, a, first, tests⟩
    · exact .inr ⟨b, ⟨_, a, first, tests⟩, nests⟩
  · intro rounds
    rcases rounds with ⟨_, a, first, tests⟩ | ⟨b, ⟨_, a, first, tests⟩, nests⟩
    · exact ⟨a, first.relined (line 1), .inl tests⟩
    · exact ⟨a, first.relined (line 1), .inr ⟨b, tests, nests⟩⟩

end Context

/-- **A loop is its first round, unrolled, and the loop again.** Where the loop ends well, so
does the unrolled code under a limit raised by one. Where the unrolled code ends well, so does
the loop under the same limit. Both leave the same context, but for the limit. -/
theorem loop_unrolled (C B : Code) (c : Context) (i j k : Nat) (line : Nat → Nat) :
    (∀ {d : Context}, c.Yields (Code.loopOf i j k C B) ⟨.ok (), d⟩ →
      Context.Yields { c with limit := c.limit + 1 } (Code.unrolled line C B)
        ⟨.ok (), { d with limit := c.limit + 1 }⟩) ∧
    (∀ {d : Context}, c.Yields (Code.unrolled line C B) ⟨.ok (), d⟩ →
      c.Yields (Code.loopOf i j k C B) ⟨.ok (), d⟩) := by
  constructor
  · intro d runs
    apply Context.yields_unrolled_ok.2
    rcases (Context.yields_loopOf_ok line).1 runs with stops | ⟨a, goes, round⟩
    · exact .inl stops.raised
    · have same := goes.sameDepth
      have room : a.depth ≤ a.limit := by
        rw [same.depth, same.limit]
        exact Nat.le_of_lt goes.room
      have nested := round.nested Outcome.not_hitsLimit_ok room (line 8)
      rw [same.limit] at nested
      exact .inr ⟨_, goes.raised, nested⟩
  · intro d runs
    apply (Context.yields_loopOf_ok line).2
    rcases Context.yields_unrolled_ok.1 runs with stops | ⟨a, goes, nests⟩
    · exact .inl stops
    · exact .inr ⟨a, goes, nests.inPlace Outcome.not_hitsLimit_ok⟩

/-- A loop that counts down from two, with one level for its condition and its body. Unrolled it
needs a second level for the rounds behind the first test. -/
theorem loop_unrolled_countdown :
    (Context.Yields { stack := [.integer 2], limit := 1 }
        (Code.loopOf 1 2 3 [.op 1 (.primitive .duplicate)]
          [.op 2 (.integer 1), .op 2 (.primitive .subtract)])
        ⟨.ok (), { stack := [.integer 0], limit := 1 }⟩ ∧
      Context.Yields { stack := [.integer 2], limit := 2 }
        (Code.unrolled id [.op 1 (.primitive .duplicate)]
          [.op 2 (.integer 1), .op 2 (.primitive .subtract)])
        ⟨.ok (), { stack := [.integer 0], limit := 2 }⟩) ∧
    Context.Yields { stack := [.integer 2], limit := 2 }
      (Code.loopOf 1 2 3 [.op 1 (.primitive .duplicate)]
        [.op 2 (.integer 1), .op 2 (.primitive .subtract)])
      ⟨.ok (), { stack := [.integer 0], limit := 2 }⟩ := by
  have counts : Context.Yields { stack := [.integer 2], limit := 1 }
      (Code.loopOf 1 2 3 [.op 1 (.primitive .duplicate)]
        [.op 2 (.integer 1), .op 2 (.primitive .subtract)])
      ⟨.ok (), { stack := [.integer 0], limit := 1 }⟩ := ⟨16, rfl⟩
  have unrolled : Context.Yields { stack := [.integer 2], limit := 2 }
      (Code.unrolled id [.op 1 (.primitive .duplicate)]
        [.op 2 (.integer 1), .op 2 (.primitive .subtract)])
      ⟨.ok (), { stack := [.integer 0], limit := 2 }⟩ := (loop_unrolled _ _ _ 1 2 3 id).1 counts
  exact ⟨⟨counts, unrolled⟩, (loop_unrolled _ _ _ 1 2 3 id).2 unrolled⟩

end FalseLang
