import FalseLang.Proofs.Machine.Simulation

/-
  The nesting limit is only a cut-off.

  `Raised m m' c d` says that `d` is `c` with the limit `m'` in place of `m`. Both
  count the same depth, so with `m ≤ m'` the run with the lower limit enters every
  quotation that the other enters, until one would be too deep for it alone. There
  it stops, and what it has written and read by then the other run has written and
  read too. `limit_cuts_off` states it for whole runs.
-/

namespace FalseLang

/-- The nesting limit has ended the run. -/
def Outcome.HitsLimit (o : Outcome) : Prop :=
  ∃ line k, o.result = .error ⟨line, .recursionLimit k⟩

/-- One context is another with a limit raised from one number to another. -/
structure Raised (m m' : Nat) (c d : Context) : Prop where
  limit : c.limit = m
  eq : d = { c with limit := m' }

/-- The first run was stopped by the limit at a point that the second has passed. -/
structure CutOff (m : Nat) (fault : Fault) (c d : Context) : Prop where
  fault : fault = .recursionLimit m
  output : c.output.written.toList <+: d.output.written.toList
  input : d.input.unread <:+ c.input.unread

namespace Raised

variable {m m' : Nat} {c d : Context}

/-- The comparison of a run with one that has a higher limit. -/
def comparison (m m' : Nat) : Comparison := .sameCode (Raised m m') (CutOff m)

theorem sameDevices : Comparison.SameDevices (comparison m m').context where
  output h := by rw [h.eq]
  input h := by rw [h.eq]
  withOutput _ h := ⟨h.limit, by rw [h.eq]⟩
  withInput _ h := ⟨h.limit, by rw [h.eq]⟩

theorem sameValues : Comparison.SameValues (comparison m m').context where
  stack h := by rw [h.eq]
  environment h := by rw [h.eq]
  withStack _ h := ⟨h.limit, by rw [h.eq]⟩
  withEnvironment _ h := ⟨h.limit, by rw [h.eq]⟩

/-- The lower limit stops a run no later than the higher one does. -/
theorem enter (lower : m ≤ m') (h : Raised m m' c d) :
    Corresponds (Raised m m') (CutOff m) Eq (Action.enter c) (Action.enter d) := by
  obtain ⟨limit, rfl⟩ := h
  unfold Action.enter
  by_cases full : c.limit ≤ c.depth
  · rw [if_pos full]
    -- Whether the higher limit stops it too, the second run has done as much by now.
    refine .excused ⟨congrArg Fault.recursionLimit limit, ?_, ?_⟩
    · dsimp only
      split <;> exact List.prefix_rfl
    · dsimp only
      split <;> exact List.suffix_rfl
  · have free : ¬ m' ≤ c.depth := by omega
    rw [if_neg full, if_neg free]
    exact .ok rfl ⟨limit, rfl⟩

theorem lawful (lower : m ≤ m') : (comparison m m').Lawful where
  push := sameValues.push
  pop := sameValues.acts_pop
  peek symbol := Comparison.sameCode_look fun h => by rw [sameValues.stack h]
  pick index := Comparison.sameCode_look fun h => by rw [sameValues.stack h]
  load name _ := Comparison.sameCode_look fun h => by rw [sameValues.environment h]
  store _ := sameValues.store
  write text := sameDevices.acts_onOutput _
  flushOutput := sameDevices.acts_onOutput _
  flushInput := sameDevices.acts_flushInput
  readChar := sameDevices.acts_readChar
  enter := enter lower
  unwind k h := ⟨h.limit, by rw [h.eq]⟩
  body same := same ▸ Comparison.sameCode_codes _
  later cut after := ⟨cut.fault, cut.output.trans after.output, after.input.trans cut.input⟩
  excused_unwind _ cut := ⟨cut.fault, cut.output, cut.input⟩

/-- A run that ends with the higher limit ends with the lower one too: alike, or cut off. -/
theorem run {steps : Nat} {code : Code} {p : Outcome} (lower : m ≤ m') (h : Raised m m' c d)
    (ended : d.run steps code = some p) :
    ∃ o, c.run steps code = some o ∧
      ((p.result = o.result ∧ Raised m m' o.context p.context) ∨
        ∃ line fault, o.result = .error ⟨line, fault⟩ ∧ CutOff m fault o.context p.context) := by
  have machines := Comparison.sameCode_machines (E := CutOff m) h code
  obtain ⟨o, finished⟩ := (lawful lower).run_back machines ended
  refine ⟨o, finished, ?_⟩
  rcases (lawful lower).run machines finished with ⟨p', ended', same⟩ | ⟨d', excused, later⟩
  · obtain rfl : p' = p := Option.some.inj (ended'.symm.trans ended)
    exact Or.inl (Comparison.sameCode_outcomes same)
  · cases excused with
    | fault cut => exact Or.inr ⟨_, _, rfl, (lawful lower).later cut (later p ended)⟩

end Raised

/-- **The nesting limit is only a cut-off.** A run that ends with some limit ends with every
lower one: just the same, or stopped by the lower limit at a point that the other run
passed. A run that the higher limit stops is stopped by the lower one. -/
theorem limit_cuts_off {m m' steps : Nat} {code : Code} {c : Context} {p : Outcome}
    (lower : m ≤ m') (ended : Context.run steps code { c with limit := m' } = some p) :
    ∃ o, Context.run steps code { c with limit := m } = some o ∧
      ((¬ o.HitsLimit ∧ o.result = p.result ∧ p.context = { o.context with limit := m' }) ∨
        ((∃ line, o.result = .error ⟨line, .recursionLimit m⟩) ∧
          o.context.output.written.toList <+: p.context.output.written.toList ∧
          p.context.input.unread <:+ o.context.input.unread)) ∧
      (p.HitsLimit → o.HitsLimit) := by
  have start : Raised m m' { c with limit := m } { c with limit := m' } := ⟨rfl, rfl⟩
  obtain ⟨o, finished, same | ⟨line, fault, failed, cut⟩⟩ := start.run lower ended
  · obtain ⟨result, raised⟩ := same
    refine ⟨o, finished, ?_, fun ⟨line, k, hit⟩ => ⟨line, k, result ▸ hit⟩⟩
    by_cases hits : o.HitsLimit
    · -- Both runs name the same limit here, so that nothing is cut off.
      obtain ⟨line, k, hit⟩ := hits
      obtain rfl : k = m := Machine.limit_of_run finished hit
      have output := Raised.sameDevices.output raised
      have input := Raised.sameDevices.input raised
      exact Or.inr ⟨⟨line, hit⟩, output ▸ List.prefix_rfl, input ▸ List.suffix_rfl⟩
    · exact Or.inl ⟨hits, result.symm, raised.eq⟩
  · obtain rfl := cut.fault
    exact ⟨o, finished, Or.inr ⟨⟨line, failed⟩, cut.output, cut.input⟩, fun _ => ⟨line, m, failed⟩⟩

/-- Three quotations inside each other, of which a limit of two stops the innermost and a
limit of one stops the second. -/
theorem limit_cuts_off_nested :
    ∃ o, Context.run 9 [.quotation 1 [.op 1 (.print "a"),
          .quotation 2 [.op 2 (.print "b"), .quotation 3 [], .op 3 (.execute false)],
          .op 4 (.execute false)], .op 5 (.execute false)] { limit := 1 } = some o ∧
      (∃ line, o.result = .error ⟨line, .recursionLimit 1⟩) ∧
      o.context.output.written.toList <+: [97, 98] := by
  have ended : Context.run 9 [.quotation 1 [.op 1 (.print "a"),
          .quotation 2 [.op 2 (.print "b"), .quotation 3 [], .op 3 (.execute false)],
          .op 4 (.execute false)], .op 5 (.execute false)] { limit := 2 } =
      some ⟨.error ⟨3, .recursionLimit 2⟩, { limit := 2, output := { written := #[97, 98] } }⟩ := by
    with_unfolding_all rfl
  obtain ⟨o, finished, cut, hits⟩ := limit_cuts_off (m := 1) (c := {}) (by decide) ended
  rcases cut with ⟨free, _⟩ | ⟨stopped, output, _⟩
  · exact absurd (hits ⟨3, 2, rfl⟩) free
  · exact ⟨o, finished, stopped, output⟩

end FalseLang
