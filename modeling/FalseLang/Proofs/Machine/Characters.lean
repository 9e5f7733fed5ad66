import FalseLang.Proofs.Machine.Sink

/-
  Characters: the output of a run is text.

  Three kinds of instructions write, and each writes the encoding of a text: a string,
  a character or a decimal number. What is to be written as a character is checked to
  be one before, whatever integer it is. On a device that takes all it is offered, a
  text is written as a whole or not at all, so that the output grows by whole
  characters (`Output.GrowsTo`). This is a habit of all actions (`textHabit`), hence of
  every step and of every run up to any point of it.

  What the device held before the run may be anything.
-/

namespace FalseLang

/-! ## Devices that grow by text -/

theorem Utf8.encode_append (a b : List Char) : encode (a ++ b) = encode a ++ encode b :=
  List.flatMap_append

namespace Output

/-- The second device holds what the first one holds and behind it the encoding of a text. -/
def GrowsTo (o p : Output) : Prop :=
  ∃ text : List Char, p.written.toList = o.written.toList ++ Utf8.encode text

namespace GrowsTo

variable {o p q : Output}

theorem of_written_eq (same : p.written = o.written) : o.GrowsTo p :=
  ⟨[], by rw [same, Utf8.encode, List.flatMap_nil, List.append_nil]⟩

theorem refl (o : Output) : o.GrowsTo o := of_written_eq rfl

theorem trans (h : o.GrowsTo p) (h' : p.GrowsTo q) : o.GrowsTo q := by
  obtain ⟨first, grown⟩ := h
  obtain ⟨second, grown'⟩ := h'
  exact ⟨first ++ second, by rw [grown', grown, List.append_assoc, Utf8.encode_append]⟩

theorem append (o : Output) (text : List Char) : o.GrowsTo (o.append (Utf8.encode text)) :=
  ⟨text, written_append o (Utf8.encode text)⟩

end GrowsTo

theorem TakesAll.flush {o : Output} (h : o.TakesAll) : (resultState (Output.flush o)).TakesAll := by
  unfold Output.flush
  dsimp only
  split <;> exact ⟨h.perCall, h.capacity⟩

end Output

/-! ## Contexts -/

/-- If the first context has a device that takes all, so has the second, and the device has grown
by text. -/
structure Context.AddsText (c d : Context) : Prop where
  limit : d.limit = c.limit
  output : c.output.TakesAll → d.output.TakesAll ∧ c.output.GrowsTo d.output

namespace Context.AddsText

variable {c d e : Context}

/-- Whatever else is done, the device is not touched. -/
theorem of_output_eq (limit : d.limit = c.limit) (same : d.output = c.output) : c.AddsText d :=
  ⟨limit, fun takes => by rw [same]; exact ⟨takes, .refl _⟩⟩

theorem trans (h : c.AddsText d) (h' : d.AddsText e) : c.AddsText e := by
  refine ⟨h'.limit.trans h.limit, fun takes => ?_⟩
  obtain ⟨still, grown⟩ := h.output takes
  obtain ⟨still', grown'⟩ := h'.output still
  exact ⟨still', grown.trans grown'⟩

/-- A text that is written is written as a whole. -/
theorem write (c : Context) (text : List Char) :
    c.AddsText (resultState (Action.write (Utf8.encode text) c)) := by
  refine ⟨(depthHabit.write c text).limit, fun takes => ?_⟩
  have written : Action.write (Utf8.encode text) c = .ok () _ :=
    Action.onOutput_of_ok (takes.write_eq (Utf8.encode text))
  rw [written]
  exact ⟨takes.append _, .append _ text⟩

/-- A flush writes nothing, and may fail. -/
theorem flushOutput (c : Context) : c.AddsText (resultState (Action.flushOutput c)) := by
  have same :
      (resultState (Action.flushOutput c)).output = resultState (Output.flush c.output) := by
    cases flushed : Output.flush c.output with
    | ok u o =>
      have done : Action.flushOutput c = .ok () _ := Action.onOutput_of_ok flushed
      rw [done]
      rfl
    | error e o =>
      have failed : Action.flushOutput c = .error _ _ := Action.onOutput_of_error flushed
      rw [failed]
      rfl
  refine ⟨(depthHabit.flushOutput c).limit, fun takes => ?_⟩
  rw [same]
  exact ⟨takes.flush, .of_written_eq (Output.flush_written _)⟩

theorem flushInput (c : Context) : c.AddsText (resultState (Action.flushInput c)) := by
  unfold Action.flushInput
  cases c.input.flush <;> exact of_output_eq rfl rfl

theorem readChar (c : Context) : c.AddsText (resultState (Action.readChar c)) := by
  unfold Action.readChar
  cases c.input.readChar <;> exact of_output_eq rfl rfl

end Context.AddsText

/-- Every action adds text to a device that takes all. -/
def textHabit : Habit where
  rel := Context.AddsText
  refl _ := .of_output_eq rfl rfl
  trans := Context.AddsText.trans
  limit := Context.AddsText.limit
  stack _ _ := .of_output_eq rfl rfl
  store _ _ _ := .of_output_eq rfl rfl
  write := Context.AddsText.write
  flushOutput := Context.AddsText.flushOutput
  flushInput := Context.AddsText.flushInput
  readChar := Context.AddsText.readChar

/-! ## Runs -/

namespace Machine

theorem addsText_step (m : Machine) : m.context.AddsText m.step.context :=
  (textHabit.step (fun _ _ => .of_output_eq rfl rfl) m).1

theorem addsText_after (m : Machine) (n : Nat) : m.context.AddsText (m.after n).context :=
  textHabit.after (fun _ _ => .of_output_eq rfl rfl) m n

end Machine

/-- **The output grows by whole characters.** On a device that takes all it is offered, what a run
has written, however it ends, is the encoding of a text behind what was there before; so is what
it has written at any point, and what each step writes. -/
theorem output_grows_by_characters {c : Context} (takes : c.output.TakesAll) (code : Code) :
    (∀ {steps : Nat} {o : Outcome}, c.run steps code = some o →
      c.output.GrowsTo o.context.output) ∧
    (∀ n : Nat, c.output.GrowsTo (Machine.after n ⟨c, code, []⟩).context.output) ∧
    (∀ {n : Nat} {m : Machine}, Machine.after n ⟨c, code, []⟩ = .running m →
      m.context.output.GrowsTo m.step.context.output) := by
  have points (n : Nat) := (Machine.addsText_after ⟨c, code, []⟩ n).output takes
  refine ⟨?_, fun n => (points n).2, ?_⟩
  · intro steps o ended
    have last := (points steps).2
    rw [Machine.run_eq_some_iff.1 ended] at last
    exact last
  · intro n m reached
    have here := (points n).1
    rw [reached] at here
    exact (m.addsText_step.output here).2

/-- A device that holds the first byte of a sign, takes one byte in a call and fails to be flushed.
A letter of two bytes, a number and a sign of three bytes are written behind that byte, and then
half of a surrogate pair is refused as a whole. -/
theorem output_grows_by_characters_surrogate :
    Output.TakesAll { written := #[0xE2], perCall := some 1, flushFailsFrom := some 0 } ∧
    ∃ o, Context.run 8 [.op 1 (.print "é"), .op 1 (.integer (-1)),
          .op 1 (.primitive .writeDecimal), .op 1 (.integer 8364), .op 1 (.primitive .writeChar),
          .op 2 (.integer 55297), .op 2 (.primitive .writeChar)]
        { output := { written := #[0xE2], perCall := some 1, flushFailsFrom := some 0 } } =
          some o ∧
      o.result = .error ⟨2, .invalidCharacter 55297⟩ ∧
      o.context.output.written.toList =
        [0xE2, 0xC3, 0xA9, 0x2D, 0x31, 0xE2, 0x82, 0xAC] ∧
      Output.GrowsTo { written := #[0xE2], perCall := some 1, flushFailsFrom := some 0 }
        o.context.output := by
  have takes : Output.TakesAll
      { written := #[0xE2], perCall := some 1, flushFailsFrom := some 0 } := ⟨by decide, rfl⟩
  have ended : Context.run 8 [.op 1 (.print "é"), .op 1 (.integer (-1)),
        .op 1 (.primitive .writeDecimal), .op 1 (.integer 8364), .op 1 (.primitive .writeChar),
        .op 2 (.integer 55297), .op 2 (.primitive .writeChar)]
      { output := { written := #[0xE2], perCall := some 1, flushFailsFrom := some 0 } } =
      some ⟨.error ⟨2, .invalidCharacter 55297⟩,
        { output := {
            written := #[0xE2, 0xC3, 0xA9, 0x2D, 0x31, 0xE2, 0x82, 0xAC]
            perCall := some 1
            flushFailsFrom := some 0 } }⟩ := by
    with_unfolding_all rfl
  exact ⟨takes, _, ended, rfl, rfl, (output_grows_by_characters takes _).1 ended⟩

end FalseLang
