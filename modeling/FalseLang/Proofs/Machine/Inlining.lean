import FalseLang.Proofs.Machine.Composition
import FalseLang.Proofs.Machine.Limit

/-
  Inlining: to call a quotation is to run its code in place.

  The call runs the code one level deeper, and nothing but the nesting limit depends on
  that. So two runs of the same code are compared of which the second has at least as
  many levels left as the first (`Roomier`). They stay in step until the limit stops the
  first (`Context.Yields.roomier`). Code in place has a level more than code in a
  quotation, and a quotation under a limit that is raised by one has as many levels as
  its code in place had before. `call_inlined` puts this together with the code around
  the call, by the rules of composition.
-/

namespace FalseLang

/-! ## Runs with more room -/

/-- Two contexts that differ in their limit and depth only, where the second has no fewer levels
left: with the limit raised by an extra, the depth has grown by no more than that. -/
structure Roomier (extra : Nat) (c d : Context) : Prop where
  stack : d.stack = c.stack
  environment : d.environment = c.environment
  input : d.input = c.input
  output : d.output = c.output
  limit : c.limit + extra ≤ d.limit
  depth : d.depth ≤ c.depth + extra

namespace Roomier

variable {extra : Nat} {c d : Context}

/-- The comparison of a run with one that has more room; only the limit excuses the first. -/
def comparison (extra : Nat) : Comparison :=
  .sameCode (Roomier extra) (fun fault _ _ => ∃ k, fault = .recursionLimit k)

theorem sameDevices : Comparison.SameDevices (comparison extra).context where
  output h := h.output
  input h := h.input
  withOutput _ h := ⟨h.stack, h.environment, h.input, rfl, h.limit, h.depth⟩
  withInput _ h := ⟨h.stack, h.environment, rfl, h.output, h.limit, h.depth⟩

theorem sameValues : Comparison.SameValues (comparison extra).context where
  stack h := h.stack
  environment h := h.environment
  withStack _ h := ⟨rfl, h.environment, h.input, h.output, h.limit, h.depth⟩
  withEnvironment _ h := ⟨h.stack, rfl, h.input, h.output, h.limit, h.depth⟩

theorem enter (h : Roomier extra c d) :
    Corresponds (Roomier extra) (comparison extra).excused Eq (Action.enter c)
      (Action.enter d) := by
  have limit := h.limit
  have depth := h.depth
  unfold Action.enter
  by_cases full : c.limit ≤ c.depth
  · rw [if_pos full]
    exact .excused ⟨_, rfl⟩
  · have room : ¬ d.limit ≤ d.depth := by omega
    rw [if_neg full, if_neg room]
    refine .ok rfl ⟨h.stack, h.environment, h.input, h.output, limit, ?_⟩
    show d.depth + 1 ≤ c.depth + 1 + extra
    omega

theorem unwind (h : Roomier extra c d) (k : Nat) :
    Roomier extra { c with depth := c.depth - k } { d with depth := d.depth - k } := by
  have depth := h.depth
  refine ⟨h.stack, h.environment, h.input, h.output, h.limit, ?_⟩
  show d.depth - k ≤ c.depth - k + extra
  omega

theorem lawful (extra : Nat) : (comparison extra).Lawful where
  push := sameValues.push
  pop := sameValues.acts_pop
  peek symbol := Comparison.sameCode_look fun h => by rw [sameValues.stack h]
  pick index := Comparison.sameCode_look fun h => by rw [sameValues.stack h]
  load name _ := Comparison.sameCode_look fun h => by rw [sameValues.environment h]
  store _ := sameValues.store
  write text := sameDevices.acts_onOutput _
  flushOutput := sameDevices.acts_onOutput _
  flushInput := sameDevices.acts_flushInput
  readChar := sameDevices.acts_readChar
  enter := enter
  unwind k h := h.unwind k
  body same := same ▸ Comparison.sameCode_codes _
  later excuse _ := excuse
  excused_unwind _ excuse := excuse

/-- The second context is the first with another limit and depth. -/
theorem eq (h : Roomier extra c d) : d = { c with limit := d.limit, depth := d.depth } := by
  obtain ⟨stack, environment, input, output, limit, depth⟩ := d
  obtain ⟨rfl, rfl, rfl, rfl, _, _⟩ := h
  rfl

end Roomier

/-- A run that the limit does not stop ends alike where there is more room. -/
theorem Context.Yields.roomier {c : Context} {code : Code} {o : Outcome} (h : c.Yields code o)
    (free : ¬ o.HitsLimit) {limit depth extra : Nat} (higher : c.limit + extra ≤ limit)
    (deeper : depth ≤ c.depth + extra) :
    Context.Yields { c with limit, depth } code
      ⟨o.result, { o.context with limit, depth }⟩ := by
  obtain ⟨steps, ended⟩ := h
  have start : Roomier extra c { c with limit, depth } := ⟨rfl, rfl, rfl, rfl, higher, deeper⟩
  rcases (Roomier.lawful extra).run (Comparison.sameCode_machines start code) ended with
    ⟨p, ended', same⟩ | ⟨d, excused, _⟩
  · obtain ⟨result, after⟩ := Comparison.sameCode_outcomes same
    have kept := Context.sameDepth_of_run ended'
    refine ⟨steps, ended'.trans (congrArg some ?_)⟩
    obtain ⟨result', context⟩ := p
    dsimp only at result after kept
    rw [result, after.eq, kept.limit, kept.depth]
  · cases excused with
    | fault excuse =>
      obtain ⟨k, rfl⟩ := excuse
      exact absurd ⟨_, k, rfl⟩ free

/-! ## Code in a context of code -/

theorem Outcome.not_hitsLimit_ok {d : Context} : ¬ HitsLimit ⟨.ok (), d⟩ := by
  intro ⟨line, k, hit⟩
  cases hit

/-- What has gone on without the limit had not been stopped by it before. -/
theorem Outcome.Then.free {p o : Outcome} {next : Context → Outcome → Prop} (h : p.Then next o)
    (free : ¬ o.HitsLimit) : ¬ p.HitsLimit := by
  obtain ⟨result, d⟩ := p
  cases result with
  | ok u => exact not_hitsLimit_ok
  | error e =>
    cases h
    exact free

theorem Outcome.Then.shift {p o : Outcome} {next next' : Context → Outcome → Prop}
    {f : Context → Context} (h : p.Then next o)
    (follows : p.result = .ok () → next p.context o → next' (f p.context) ⟨o.result, f o.context⟩) :
    Outcome.Then ⟨p.result, f p.context⟩ next' ⟨o.result, f o.context⟩ := by
  obtain ⟨result, d⟩ := p
  cases result with
  | ok u => exact follows rfl h
  | error e =>
    cases h
    rfl

namespace Context

variable {c : Context} {A X Y C : Code} {o : Outcome}

/-- Code that is the same to every context may be replaced by each other. -/
theorem yields_congr (same : ∀ (d : Context) p, d.Yields X p ↔ d.Yields Y p) :
    c.Yields (A ++ X ++ C) o ↔ c.Yields (A ++ Y ++ C) o := by
  simp only [yields_append, Outcome.then_congr same]

/-- Code may be replaced in the midst of other code if contexts are changed on the way, as long
as the code around it bears the change, and so does what is replaced; the limit must not stop
the run. -/
theorem Yields.replaced {f : Context → Context} (h : c.Yields (A ++ X ++ C) o)
    (free : ¬ o.HitsLimit)
    (around : ∀ {code d p}, c.SameDepth d → d.Yields code p → ¬ p.HitsLimit →
      (f d).Yields code ⟨p.result, f p.context⟩)
    (part : ∀ {d p}, c.SameDepth d → d.Yields X p → ¬ p.HitsLimit →
      (f d).Yields Y ⟨p.result, f p.context⟩) :
    (f c).Yields (A ++ Y ++ C) ⟨o.result, f o.context⟩ := by
  obtain ⟨p, front, behind⟩ := yields_append.1 h
  obtain ⟨q, first, second⟩ := yields_append.1 front
  have through : ¬ p.HitsLimit := behind.free free
  have start : c.SameDepth q.context := first.sameDepth
  refine yields_append.2 ⟨⟨p.result, f p.context⟩, ?_, ?_⟩
  · refine yields_append.2 ⟨⟨q.result, f q.context⟩, ?_, ?_⟩
    · exact around ⟨rfl, rfl⟩ first (second.free through)
    · exact second.shift fun _ runs => part start runs through
  · exact behind.shift fun _ runs => around front.sameDepth runs free

end Context

/-! ## Calls -/

/-- The code that calls a quotation at once: by executing it, or by executing it under a literal
condition that is true. -/
inductive Code.CallOf (body : Code) : Code → Prop where
  | execute (j k : Nat) : CallOf body [.quotation j body, .op k (.execute false)]
  | conditional (i j k : Nat) {n : Int64} (holds : n ≠ 0) :
    CallOf body [.op i (.integer n), .quotation j body, .op k (.execute true)]

namespace Context

variable {c d : Context} {A B C X : Code} {o : Outcome}

theorem yields_execute (j k : Nat) :
    c.Yields [.quotation j B, .op k (.execute false)] o ↔ c.Nests k B o := by
  rw [yields_cons_of_proceed (d := { c with stack := .quotation B :: c.stack }) rfl,
    yields_singleton]
  exact performs_iff_of_call rfl

/-- A quotation on top of a literal is called unless the literal is zero. -/
theorem yields_conditional (i j k : Nat) {n : Int64} (holds : n ≠ 0) :
    c.Yields [.op i (.integer n), .quotation j B, .op k (.execute true)] o ↔ c.Nests k B o := by
  rw [yields_cons_of_proceed (d := { c with stack := .integer n :: c.stack }) rfl,
    yields_cons_of_proceed (d := { c with stack := .quotation B :: .integer n :: c.stack }) rfl,
    yields_singleton]
  apply performs_iff_of_call
  have chosen : (n != 0) = true := bne_iff_ne.2 holds
  show (if (n != 0) = true then pure (.call B) else pure .proceed : Action Effect) c = _
  rw [if_pos chosen]
  rfl

theorem yields_skipped (i j k : Nat) :
    c.Yields [.op i (.integer 0), .quotation j B, .op k (.execute true)] o ↔ c.Yields [] o := by
  rw [yields_cons_of_proceed (d := { c with stack := .integer 0 :: c.stack }) rfl,
    yields_cons_of_proceed (d := { c with stack := .quotation B :: .integer 0 :: c.stack }) rfl]
  exact yields_cons_of_proceed rfl

theorem yields_callOf (h : Code.CallOf B X) : ∃ line, ∀ (c : Context) o,
    c.Yields X o ↔ c.Nests line B o := by
  cases h with
  | execute j k => exact ⟨k, fun _ _ => yields_execute j k⟩
  | conditional i j k holds => exact ⟨k, fun _ _ => yields_conditional i j k holds⟩

/-- The code of a quotation that was run one level deeper can be run in place. -/
theorem Nests.inPlace {line : Nat} (h : c.Nests line B o) (free : ¬ o.HitsLimit) :
    c.Yields B o := by
  cases h with
  | refused full => exact absurd ⟨line, c.limit, rfl⟩ free
  | @entered room result d inside =>
    obtain ⟨limit, depth⟩ := inside.sameDepth
    have higher : c.limit + 0 ≤ c.limit := Nat.le_refl c.limit
    have above := inside.roomier (o := ⟨result, d⟩) free higher (Nat.le_succ c.depth)
    have left : d.leave = { d with limit := c.limit, depth := c.depth } := by
      show { d with depth := d.depth - 1 } = _
      rw [show d.depth = c.depth + 1 from depth, ← show d.limit = c.limit from limit]
      rfl
    rw [left]
    exact above

/-- Code that was run in place can be run one level deeper under a limit raised by one. -/
theorem Yields.nested (h : c.Yields B o) (free : ¬ o.HitsLimit) (room : c.depth ≤ c.limit)
    (line : Nat) :
    Nests line B { c with limit := c.limit + 1 }
      ⟨o.result, { o.context with limit := c.limit + 1 }⟩ := by
  have below := h.roomier free (Nat.le_refl (c.limit + 1)) (Nat.le_refl (c.depth + 1))
  have entered : Nests line B { c with limit := c.limit + 1 } _ :=
    .entered (Nat.lt_succ_of_le room) below
  have depth : o.context.depth = c.depth := h.sameDepth.depth
  have left : { o.context with limit := c.limit + 1 } =
      Context.leave { o.context with limit := c.limit + 1, depth := c.depth + 1 } := by
    show _ = { o.context with limit := c.limit + 1, depth := c.depth + 1 - 1 }
    rw [Nat.add_sub_cancel, ← depth]
  rw [left]
  exact entered

end Context

/-- A run that the limit does not stop ends alike under a limit raised by one. -/
theorem Context.Yields.raised {c d : Context} {code : Code} {o : Outcome} (h : d.Yields code o)
    (free : ¬ o.HitsLimit) (same : c.SameDepth d) :
    Context.Yields { d with limit := c.limit + 1 } code
      ⟨o.result, { o.context with limit := c.limit + 1 }⟩ := by
  have depth : o.context.depth = d.depth := h.sameDepth.depth
  have higher : d.limit + 1 ≤ c.limit + 1 := Nat.le_of_eq (congrArg (· + 1) same.limit)
  have more := h.roomier free higher (Nat.le_succ d.depth)
  have kept : ({ o.context with limit := c.limit + 1 } : Context) =
      { o.context with limit := c.limit + 1, depth := d.depth } := by rw [← depth]
  rw [kept]
  exact more

/-- **To call a quotation is to run its code in place.** A run with the call that the limit does
not stop ends with the same outcome if the code stands there instead. A run of the code in
place that the limit does not stop ends alike with the call, under a limit raised by one; the
depth is within the limit, as it is wherever code can be run. A call under the condition zero
is as if it were not there. -/
theorem call_inlined (A B C : Code) (c : Context) :
    (∀ {X : Code} {o : Outcome}, Code.CallOf B X → c.Yields (A ++ X ++ C) o → ¬ o.HitsLimit →
      c.Yields (A ++ B ++ C) o) ∧
    (c.depth ≤ c.limit → ∀ {X : Code} {o : Outcome}, Code.CallOf B X →
      c.Yields (A ++ B ++ C) o → ¬ o.HitsLimit →
      Context.Yields { c with limit := c.limit + 1 } (A ++ X ++ C)
        ⟨o.result, { o.context with limit := c.limit + 1 }⟩) ∧
    (∀ (i j k : Nat) (o : Outcome),
      c.Yields (A ++ [.op i (.integer 0), .quotation j B, .op k (.execute true)] ++ C) o ↔
        c.Yields (A ++ C) o) := by
  refine ⟨?_, ?_, ?_⟩
  · intro X o call runs free
    obtain ⟨line, calls⟩ := Context.yields_callOf call
    refine runs.replaced (f := id) free (fun _ runs _ => runs) ?_
    intro d p _ runs free
    exact ((calls d p).1 runs).inPlace free
  · intro room X o call runs free
    obtain ⟨line, calls⟩ := Context.yields_callOf call
    refine runs.replaced (f := fun d => { d with limit := c.limit + 1 }) free
      (fun same runs free => runs.raised free same) ?_
    intro d p same runs free
    have inside : d.depth ≤ d.limit := by rw [same.depth, same.limit]; exact room
    have nested := runs.nested free inside line
    rw [same.limit] at nested
    exact (calls _ _).2 nested
  · intro i j k o
    rw [Context.yields_congr fun d p => Context.yields_skipped i j k, List.append_nil]

/-- A seven is divided by a zero that comes from a quotation in a quotation. With the outer one
called two levels are needed, with its code in place one; the error is the same. If it is
skipped the zero is missing. -/
theorem call_inlined_division :
    (Context.Yields { limit := 2 }
        [.op 1 (.integer 7), .quotation 2 [.quotation 2 [.op 2 (.integer 0)],
          .op 3 (.execute false)], .op 4 (.execute false), .op 5 (.primitive .divide)]
        ⟨.error ⟨5, .divisionByZero⟩, { limit := 2 }⟩ ∧
      Context.Yields { limit := 2 }
        [.op 1 (.integer 7), .quotation 2 [.op 2 (.integer 0)], .op 3 (.execute false),
          .op 5 (.primitive .divide)]
        ⟨.error ⟨5, .divisionByZero⟩, { limit := 2 }⟩) ∧
    (Context.Yields { limit := 1 }
        [.op 1 (.integer 7), .quotation 2 [.op 2 (.integer 0)], .op 3 (.execute false),
          .op 5 (.primitive .divide)]
        ⟨.error ⟨5, .divisionByZero⟩, { limit := 1 }⟩ ∧
      Context.Yields { limit := 2 }
        [.op 1 (.integer 7), .op 4 (.integer (-3)), .quotation 4 [.quotation 2
          [.op 2 (.integer 0)], .op 3 (.execute false)], .op 4 (.execute true),
          .op 5 (.primitive .divide)]
        ⟨.error ⟨5, .divisionByZero⟩, { limit := 2 }⟩) ∧
    (Context.Yields { limit := 1 }
        [.op 1 (.integer 7), .op 4 (.integer 0), .quotation 4 [.quotation 2
          [.op 2 (.integer 0)], .op 3 (.execute false)], .op 4 (.execute true),
          .op 5 (.primitive .divide)]
        ⟨.error ⟨5, .stackUnderflow '/'⟩, { limit := 1 }⟩ ∧
      Context.Yields { limit := 1 } [.op 1 (.integer 7), .op 5 (.primitive .divide)]
        ⟨.error ⟨5, .stackUnderflow '/'⟩, { limit := 1 }⟩) := by
  have free {d : Context} : ¬ Outcome.HitsLimit ⟨.error ⟨5, .divisionByZero⟩, d⟩ := by
    intro ⟨line, k, hit⟩
    cases hit
  have room : ({ limit := 1 } : Context).depth ≤ ({ limit := 1 } : Context).limit := by decide
  have nonzero : (-3 : Int64) ≠ 0 := by decide
  obtain ⟨inPlace, _, _⟩ := call_inlined [.op 1 (.integer 7)]
    [.quotation 2 [.op 2 (.integer 0)], .op 3 (.execute false)] [.op 5 (.primitive .divide)]
    { limit := 2 }
  obtain ⟨_, called, skipped⟩ := call_inlined [.op 1 (.integer 7)]
    [.quotation 2 [.op 2 (.integer 0)], .op 3 (.execute false)] [.op 5 (.primitive .divide)]
    { limit := 1 }
  refine ⟨⟨⟨9, rfl⟩, ?_⟩, ⟨⟨6, rfl⟩, ?_⟩, ⟨⟨5, rfl⟩, ?_⟩⟩
  · exact inPlace (.execute 2 4) ⟨9, rfl⟩ free
  · exact called room (.conditional 4 4 4 nonzero) (o := ⟨_, { limit := 1 }⟩) ⟨6, rfl⟩ free
  · exact (skipped 4 4 4 _).1 ⟨5, rfl⟩

end FalseLang
