import FalseLang.Proofs.Machine.Effects
import FalseLang.Proofs.Machine.Progress

/-
  Failure: what an instruction that fails leaves behind.

  A session goes on after a failure, so what has been taken and written by then can be
  seen. `Instruction.pops`, `Instruction.pushes` and `Instruction.offers` are tables of
  how an instruction uses the stack and the output. `Completed` says that an
  instruction has done all of what the tables have for it, and `Disturbed` that it has
  failed after a part. Performing an instruction does one or the other
  (`Instruction.perform_leaves`). The rules for this are read from the first action of
  an instruction to its last, since each operand that is taken leaves one less to take
  (`Action.leaves_pop`).

  An error of a run is a fault of an instruction, of a loop whose condition has left
  no truth value, or of the nesting limit, and only the depth is set back after it
  (`FaultAt`, `Machine.explained_run`). So what is known of single faults, such as that
  a missing operand is noticed on an empty stack only, is known of runs.
-/

namespace FalseLang

/-! ## What instructions use -/

/-- How many values a primitive takes from the stack. -/
def Primitive.pops : Primitive → Nat
  | .duplicate | .readChar | .flush => 0
  | .drop | .pick | .negate | .not | .writeChar | .writeDecimal => 1
  | .swap | .add | .subtract | .multiply | .divide | .bitAnd | .bitOr | .greater | .equal => 2
  | .rotate => 3

/-- How many values a primitive puts on the stack. -/
def Primitive.pushes : Primitive → Nat
  | .drop | .writeChar | .writeDecimal | .flush => 0
  | .duplicate | .pick | .negate | .not | .readChar => 1
  | .add | .subtract | .multiply | .divide | .bitAnd | .bitOr | .greater | .equal => 1
  | .swap => 2
  | .rotate => 3

namespace Op

def pops : Op → Nat
  | .integer _ | .character _ | .letter _ | .print _ => 0
  | .primitive p => p.pops
  | .execute false | .load => 1
  | .execute true | .loop | .store => 2

def pushes : Op → Nat
  | .integer _ | .character _ | .letter _ | .load => 1
  | .primitive p => p.pushes
  | .print _ | .execute _ | .loop | .store => 0

/-- The bytes that an operation is to write, which may depend on the top of the stack. -/
def offers : Op → Stack → List UInt8
  | .print text, _ => Utf8.encode text.toList
  | .primitive .writeChar, .integer code :: _ =>
    (Integer.toChar? code).elim [] String.utf8EncodeChar
  | .primitive .writeDecimal, .integer n :: _ => Utf8.encode (Integer.decimal n).toList
  | _, _ => []

end Op

namespace Instruction

def pops : Instruction → Nat
  | .op _ o => o.pops
  | .quotation _ _ => 0

def pushes : Instruction → Nat
  | .op _ o => o.pushes
  | .quotation _ _ => 1

def offers : Instruction → Stack → List UInt8
  | .op _ o => o.offers
  | .quotation _ _ => fun _ => []

/-- Whether an instruction can make a quotation run. -/
def runsCode : Instruction → Bool
  | .op _ (.execute _) | .op _ .loop => true
  | _ => false

end Instruction

/-- All was done: the operands were there and have been replaced by the results, and all
bytes have been written. -/
structure Completed (pops pushes : Nat) (offered : List UInt8) (c d : Context) : Prop where
  operands : pops ≤ c.stack.length
  stack : ∃ pushed : Stack, pushed.length = pushes ∧ d.stack = pushed ++ c.stack.drop pops
  output : d.output.written.toList = c.output.written.toList ++ offered

/-- A fault came in between: some operands may be gone and nothing is in their place, nothing
has been read, and a part of the bytes may have been written, but only if a device has
failed. All else is as it was. -/
structure Disturbed (pops : Nat) (offered : List UInt8) (c : Context) (fault : Fault)
    (d : Context) : Prop where
  environment : d.environment = c.environment
  depth : d.depth = c.depth
  limit : d.limit = c.limit
  stack : ∃ taken ≤ pops, d.stack = c.stack.drop taken
  input : d.input.deliveries = c.input.deliveries
  output : ∃ part, part <+: offered ∧
    d.output.written.toList = c.output.written.toList ++ part
  devices : (∀ e, fault ≠ .io e) → d.input = c.input ∧ d.output = c.output
  underflow : ∀ symbol, fault = .stackUnderflow symbol → d.stack = []

namespace Completed

variable {pops pushes : Nat} {offered : List UInt8} {c d : Context}

theorem of_pushed (pushed : Stack) (stack : d.stack = pushed ++ c.stack)
    (output : d.output = c.output) : Completed 0 pushed.length [] c d :=
  ⟨Nat.zero_le _, ⟨pushed, rfl, stack⟩, by rw [output, List.append_nil]⟩

theorem of_popped {v : Value} {rest : Stack} (top : c.stack = v :: rest)
    (h : Completed pops pushes offered { c with stack := rest } d) :
    Completed (pops + 1) pushes offered c d where
  operands := by
    rw [top]
    exact Nat.succ_le_succ h.operands
  stack := by
    rw [top]
    exact h.stack
  output := h.output

end Completed

namespace Disturbed

variable {pops : Nat} {offered : List UInt8} {c d : Context} {fault : Fault}

/-- A fault before anything is done. -/
theorem of_unchanged (h : ∀ symbol, fault = .stackUnderflow symbol → c.stack = []) :
    Disturbed pops offered c fault c where
  environment := rfl
  depth := rfl
  limit := rfl
  stack := ⟨0, Nat.zero_le _, rfl⟩
  input := rfl
  output := ⟨[], List.nil_prefix, (List.append_nil _).symm⟩
  devices := fun _ => ⟨rfl, rfl⟩
  underflow := h

theorem of_popped {v : Value} {rest : Stack} (top : c.stack = v :: rest)
    (h : Disturbed pops offered { c with stack := rest } fault d) :
    Disturbed (pops + 1) offered c fault d where
  environment := h.environment
  depth := h.depth
  limit := h.limit
  stack := by
    obtain ⟨taken, few, left⟩ := h.stack
    exact ⟨taken + 1, Nat.succ_le_succ few, by rw [left, top]; rfl⟩
  input := h.input
  output := h.output
  devices := h.devices
  underflow := h.underflow

/-- A device that fails may have been flushed or written to. -/
theorem of_device {e : DeviceError} {input : Input} {output : Output} {part : List UInt8}
    (unread : input.deliveries = c.input.deliveries) (begun : part <+: offered)
    (written : output.written.toList = c.output.written.toList ++ part) :
    Disturbed pops offered c (.io e) { c with input := input, output := output } where
  environment := rfl
  depth := rfl
  limit := rfl
  stack := ⟨0, Nat.zero_le _, rfl⟩
  input := unread
  output := ⟨part, begun, written⟩
  devices := fun other => absurd rfl (other e)
  underflow := fun symbol eq => by cases eq

end Disturbed

/-! ## What actions leave -/

theorem Output.flush_part (o : Output) :
    (resultState (Output.flush o)).written.toList = o.written.toList ++ [] := by
  rw [Output.flush_written, List.append_nil]

theorem Input.flush_deliveries (i : Input) :
    (resultState (Input.flush i)).deliveries = i.deliveries := by
  unfold Input.flush
  dsimp only
  split <;> rfl

/-- Writing takes the bytes in their order: all of them, or a first part and then an error. -/
theorem Output.write_part (bytes : List UInt8) (o : Output) :
    match Output.write bytes o with
    | .ok _ o' => o'.written.toList = o.written.toList ++ bytes
    | .error _ o' => ∃ part, part <+: bytes ∧
        o'.written.toList = o.written.toList ++ part := by
  fun_induction Output.write bytes o with
  | case1 o => simp
  | case2 o b rest h => exact Output.written_append o (b :: rest)
  | case3 o b rest h => exact ⟨[], List.nil_prefix, by simp⟩
  | case4 o b rest n h ih =>
    rw [Output.written_append] at ih
    have whole : b :: rest.take n ++ rest.drop n = b :: rest := by simp
    split at ih
    · rw [ih, List.append_assoc, whole]
    · obtain ⟨part, first, grown⟩ := ih
      refine ⟨b :: rest.take n ++ part, ?_, by rw [grown, List.append_assoc]⟩
      rw [← whole]
      exact (List.prefix_append_right_inj _).2 first

namespace Action

/-- An action from a context on does all there is to do, or fails after a part of it. -/
def Leaves {α : Type} (pops pushes : Nat) (offered : List UInt8) (x : Action α) (c : Context) :
    Prop :=
  match x c with
  | .ok _ d => Completed pops pushes offered c d
  | .error fault d => Disturbed pops offered c fault d

section
variable {α β : Type} {pops pushes : Nat} {offered : List UInt8} {c d : Context}

theorem bind_of_ok {x : Action α} {a : α} (h : x c = .ok a d) (f : α → Action β) :
    (x >>= f) c = f a d := by
  show EStateM.bind x f c = _
  rw [EStateM.bind, h]

theorem bind_of_error {x : Action α} {fault : Fault} (h : x c = .error fault d)
    (f : α → Action β) : (x >>= f) c = .error fault d := by
  show EStateM.bind x f c = _
  rw [EStateM.bind, h]

theorem leaves_of_ok {x : Action α} {a : α} (h : x c = .ok a d)
    (completed : Completed pops pushes offered c d) : Leaves pops pushes offered x c := by
  unfold Leaves
  rw [h]
  exact completed

theorem leaves_of_error {x : Action α} {fault : Fault} (h : x c = .error fault d)
    (disturbed : Disturbed pops offered c fault d) : Leaves pops pushes offered x c := by
  unfold Leaves
  rw [h]
  exact disturbed

/-- An action that has only results to push. -/
theorem leaves_pushed {x : Action α} {a : α} (pushed : Stack)
    (h : x c = .ok a { c with stack := pushed ++ c.stack }) : Leaves 0 pushed.length [] x c :=
  leaves_of_ok h (.of_pushed pushed rfl rfl)

theorem leaves_then {x : Action α} (h : Leaves pops pushes offered x c) (b : β) :
    Leaves pops pushes offered (x >>= fun _ => pure b) c := by
  unfold Leaves at h
  split at h
  · exact leaves_of_ok (bind_of_ok (by assumption) _) h
  · exact leaves_of_error (bind_of_error (by assumption) _) h

/-! ### Operands -/

/-- An operand that is taken leaves one less to take. -/
theorem leaves_pop {symbol : Char} {f : Value → Action β}
    (h : ∀ v rest, c.stack = v :: rest →
      Leaves pops pushes offered (f v) { c with stack := rest }) :
    Leaves (pops + 1) pushes offered (pop symbol >>= f) c := by
  cases top : c.stack with
  | nil =>
    have missing : pop symbol c = .error (.stackUnderflow symbol) c := by
      unfold pop
      rw [top]
      rfl
    exact leaves_of_error (bind_of_error missing f) (.of_unchanged fun _ _ => top)
  | cons v rest =>
    have taken : pop symbol c = .ok v { c with stack := rest } := by
      unfold pop
      rw [top]
      rfl
    have later := h v rest top
    unfold Leaves at later ⊢
    rw [bind_of_ok taken f]
    split
    · rename_i hr
      rw [hr] at later
      exact .of_popped top later
    · rename_i hr
      rw [hr] at later
      exact .of_popped top later

theorem leaves_peek {symbol : Char} {f : Value → Action β}
    (h : ∀ v, Leaves pops pushes offered (f v) c) :
    Leaves pops pushes offered (peek symbol >>= f) c := by
  cases top : c.stack with
  | nil =>
    have missing : peek symbol c = .error (.stackUnderflow symbol) c := by
      unfold peek
      rw [top]
      rfl
    exact leaves_of_error (bind_of_error missing f) (.of_unchanged fun _ _ => top)
  | cons v rest =>
    have found : peek symbol c = .ok v c := by
      unfold peek
      rw [top]
      rfl
    have later := h v
    unfold Leaves at later ⊢
    rw [bind_of_ok found f]
    exact later

/-- A look at values changes nothing. -/
theorem leaves_lift {e : Except Fault α} {f : α → Action β} (looked : OfValues e)
    (h : ∀ a, e = .ok a → Leaves pops pushes offered (f a) c) :
    Leaves pops pushes offered (lift e >>= f) c := by
  cases e with
  | ok a => exact h a rfl
  | error fault =>
    refine leaves_of_error rfl (.of_unchanged fun symbol eq => ?_)
    cases eq
    exact (looked _ rfl : False).elim

/-- An operand of a certain kind. -/
theorem leaves_popAs {symbol : Char} {convert : Value → Except Fault α} {f : α → Action β}
    (looked : ∀ v, OfValues (convert v))
    (h : ∀ v rest a, c.stack = v :: rest → convert v = .ok a →
      Leaves pops pushes offered (f a) { c with stack := rest }) :
    Leaves (pops + 1) pushes offered ((pop symbol >>= fun v => lift (convert v)) >>= f) c := by
  rw [bind_assoc]
  refine leaves_pop fun v rest top => ?_
  exact leaves_lift (looked v) fun a converted => h v rest a top converted

theorem leaves_popInteger {symbol : Char} {f : Int64 → Action β}
    (h : ∀ n rest, c.stack = .integer n :: rest →
      Leaves pops pushes offered (f n) { c with stack := rest }) :
    Leaves (pops + 1) pushes offered (popInteger symbol >>= f) c := by
  refine leaves_popAs (ofValues_toInteger symbol) (fun v rest n top converted => ?_)
  cases v <;> cases converted
  exact h n rest top

theorem leaves_binary {symbol : Char} {f : Int64 → Int64 → Except Fault Int64}
    (looked : ∀ a b, OfValues (f a b)) : Leaves 2 1 [] (binary symbol f) c := by
  refine leaves_popInteger fun b rest _ => ?_
  refine leaves_popInteger fun a rest _ => ?_
  exact leaves_lift (looked a b) fun n _ => leaves_pushed [.integer n] rfl

end

/-! ### Devices -/

section
variable {β : Type} {pushes : Nat} {c : Context}

theorem onOutput_of_ok {act : Output → EStateM.Result DeviceError Output Unit} {o : Output}
    (h : act c.output = .ok () o) : onOutput act c = .ok () { c with output := o } := by
  unfold onOutput
  dsimp only
  rw [h]

theorem onOutput_of_error {act : Output → EStateM.Result DeviceError Output Unit}
    {e : DeviceError} {o : Output} (h : act c.output = .error e o) :
    onOutput act c = .error (.io e) { c with output := o } := by
  unfold onOutput
  dsimp only
  rw [h]

theorem leaves_write (bytes : List UInt8) : Leaves 0 0 bytes (write bytes) c := by
  have written := Output.write_part bytes c.output
  cases hr : Output.write bytes c.output with
  | ok u o =>
    rw [hr] at written
    exact leaves_of_ok (onOutput_of_ok hr) ⟨Nat.zero_le _, ⟨[], rfl, rfl⟩, written⟩
  | error e o =>
    rw [hr] at written
    obtain ⟨part, first, grown⟩ := written
    exact leaves_of_error (onOutput_of_error hr) (.of_device rfl first grown)

/-- A flush may fail, and writes nothing either way. -/
theorem leaves_flushOutput {f : Unit → Action β}
    (h : ∀ o : Output, o.written.toList = c.output.written.toList ++ [] →
      ∃ a d, f () { c with output := o } = .ok a d ∧ Completed 0 pushes [] c d) :
    Leaves 0 pushes [] (flushOutput >>= f) c := by
  have same := c.output.flush_part
  cases hr : c.output.flush with
  | ok u o =>
    rw [hr] at same
    obtain ⟨a, d, ok, completed⟩ := h o same
    exact leaves_of_ok ((bind_of_ok (onOutput_of_ok hr) f).trans ok) completed
  | error e o =>
    rw [hr] at same
    exact leaves_of_error (bind_of_error (onOutput_of_error hr) f)
      (.of_device rfl List.prefix_rfl same)

/-- Of two devices that are flushed, the second is left alone if the first fails. -/
theorem leaves_flush : Leaves 0 0 [] (flushInput >>= fun _ => flushOutput) c := by
  have unread := c.input.flush_deliveries
  have same := c.output.flush_part
  cases hi : c.input.flush with
  | error e i =>
    rw [hi] at unread
    have failed : flushInput c = .error (.io e) { c with input := i } := by
      unfold flushInput
      rw [hi]
    exact leaves_of_error (bind_of_error failed _)
      (.of_device unread List.prefix_rfl (List.append_nil _).symm)
  | ok u i =>
    rw [hi] at unread
    have flushed : flushInput c = .ok () { c with input := i } := by
      unfold flushInput
      rw [hi]
    cases ho : c.output.flush with
    | error e o =>
      rw [ho] at same
      have failed : flushOutput { c with input := i } = .error (.io e) _ := onOutput_of_error ho
      exact leaves_of_error ((bind_of_ok flushed _).trans failed)
        (.of_device unread List.prefix_rfl same)
    | ok u o =>
      rw [ho] at same
      have all : flushOutput { c with input := i } = .ok () _ := onOutput_of_ok ho
      exact leaves_of_ok ((bind_of_ok flushed _).trans all)
        ⟨Nat.zero_le _, ⟨[], rfl, rfl⟩, same⟩

/-- A character is read, or the input counts as ended: that never fails. -/
theorem readChar_ok (c : Context) : ∃ char i, readChar c = .ok char { c with input := i } := by
  unfold readChar
  cases hr : c.input.readChar with
  | ok char i => exact ⟨char, i, rfl⟩
  | error e i => exact ⟨none, i, rfl⟩

end

end Action

/-! ## What instructions leave -/

section Instructions
open FalseLang.Action

theorem Primitive.perform_leaves (p : Primitive) (c : Context) :
    Leaves p.pops p.pushes ((Op.primitive p).offers c.stack) p.perform c := by
  unfold Primitive.perform
  cases p with
  | duplicate => exact leaves_peek fun v => leaves_pushed [v] rfl
  | drop => exact leaves_pop fun v rest _ => leaves_pushed [] rfl
  | swap => exact leaves_pop fun b _ _ => leaves_pop fun a _ _ => leaves_pushed [a, b] rfl
  | rotate =>
    refine leaves_pop fun c _ _ => leaves_pop fun b _ _ => leaves_pop fun a _ _ => ?_
    exact leaves_pushed [a, c, b] rfl
  | pick =>
    refine leaves_popInteger fun index rest _ => ?_
    exact leaves_lift (ofValues_pick rest index) fun v _ => leaves_pushed [v] rfl
  | add | subtract | multiply => exact leaves_binary fun a b => ofValues_orOverflow _ _
  | divide => exact leaves_binary ofValues_floorDiv
  | bitAnd | bitOr | greater | equal => exact leaves_binary fun a b => ofValues_ok _
  | negate =>
    refine leaves_popInteger fun a rest _ => ?_
    exact leaves_lift (ofValues_orOverflow _ _) fun n _ => leaves_pushed [.integer n] rfl
  | not => exact leaves_popInteger fun a rest _ => leaves_pushed [_] rfl
  | readChar =>
    refine leaves_flushOutput fun o same => ?_
    obtain ⟨char, i, read⟩ := readChar_ok { c with output := o }
    cases char with
    | none =>
      refine ⟨(), _, bind_of_ok read _, Nat.zero_le _, ⟨[.integer (-1)], rfl, rfl⟩, same⟩
    | some char =>
      refine ⟨(), _, bind_of_ok read _, Nat.zero_le _, ⟨[.integer _], rfl, rfl⟩, same⟩
  | writeChar =>
    refine leaves_popInteger fun code rest top => ?_
    refine leaves_lift (ofValues_toChar code) fun char valid => ?_
    have found : Integer.toChar? code = some char := by
      unfold Integer.toChar at valid
      split at valid <;> cases valid
      assumption
    have bytes : (Op.primitive .writeChar).offers c.stack = String.utf8EncodeChar char := by
      rw [top]
      show (Integer.toChar? code).elim [] String.utf8EncodeChar = _
      rw [found]
      rfl
    rw [bytes]
    exact leaves_write _
  | writeDecimal =>
    refine leaves_popInteger fun n rest top => ?_
    rw [top]
    exact leaves_write _
  | flush => exact leaves_flush

theorem Op.perform_leaves (o : Op) (c : Context) :
    Leaves o.pops o.pushes (o.offers c.stack) o.perform c := by
  match o with
  | .integer value => exact leaves_pushed [.integer value] rfl
  | .character code => exact leaves_pushed [.integer code] rfl
  | .letter name => exact leaves_pushed [.name name] rfl
  | .primitive p => exact leaves_then (p.perform_leaves c) _
  | .print text => exact leaves_then (leaves_write _) _
  | .execute false =>
    exact leaves_popAs (ofValues_toQuotation '!') fun _ _ _ _ _ => leaves_pushed [] rfl
  | .execute true =>
    refine leaves_popAs (ofValues_toQuotation '?') fun _ _ body _ _ => ?_
    refine leaves_popAs (ofValues_toBool '?') fun _ _ condition _ _ => ?_
    cases condition <;> exact leaves_pushed [] rfl
  | .loop =>
    refine leaves_pop fun body _ _ => leaves_pop fun condition _ _ => ?_
    refine leaves_lift (ofValues_toQuotation '#' body) fun _ _ => ?_
    exact leaves_lift (ofValues_toQuotation '#' condition) fun _ _ => leaves_pushed [] rfl
  | .store =>
    refine leaves_popAs (ofValues_toName ':') fun _ _ name _ _ => leaves_pop fun v _ _ => ?_
    exact leaves_of_ok rfl (.of_pushed [] rfl rfl)
  | .load =>
    refine leaves_popAs (ofValues_toName ';') fun _ _ name _ _ => ?_
    exact leaves_lift (ofValues_load _ name) fun v _ => leaves_pushed [v] rfl

/-- Performing an instruction does all that the tables have for it, or fails after a part. -/
theorem Instruction.perform_leaves (i : Instruction) (c : Context) :
    Leaves i.pops i.pushes (i.offers c.stack) i.perform c := by
  cases i with
  | op line o => exact o.perform_leaves c
  | quotation line body => exact leaves_pushed [.quotation body] rfl

end Instructions

/-! ## Single instructions -/

/-- An instruction that runs no code starts nothing. -/
theorem Instruction.effect_of_not_runsCode {i : Instruction} {c d : Context} {effect : Effect}
    (plain : i.runsCode = false) (h : i.perform c = .ok effect d) : effect = .proceed := by
  have starts := i.perform_starts c effect d h
  cases effect with
  | proceed => rfl
  | call body =>
    cases i with
    | op line o =>
      simp only [Starts, Op.Starts, List.mem_cons, List.not_mem_nil, or_false] at starts
      rcases starts with rfl | rfl <;> cases plain
    | quotation line body => cases starts
  | loop condition body =>
    obtain ⟨line, rfl⟩ := eq_loop_of_starts starts
    cases plain

/-- The run of one instruction that runs no code is its performance. -/
theorem Context.run_single {i : Instruction} {c : Context} {steps : Nat} {o : Outcome}
    (plain : i.runsCode = false) (h : c.run steps [i] = some o) :
    (∃ d, i.perform c = .ok .proceed d ∧ o = ⟨.ok (), d⟩) ∨
    (∃ fault d, i.perform c = .error fault d ∧ o = ⟨.error ⟨i.line, fault⟩, d⟩) := by
  unfold Context.run at h
  cases steps with
  | zero => cases h
  | succ n =>
    cases hr : i.perform c with
    | ok effect d =>
      cases Instruction.effect_of_not_runsCode plain hr
      rw [Machine.run_proceed hr] at h
      cases n with
      | zero => cases h
      | succ n =>
        cases h
        exact .inl ⟨d, rfl, rfl⟩
    | error fault d =>
      rw [Machine.run_fault hr] at h
      cases h
      exact .inr ⟨fault, d, rfl, rfl⟩

/-! ## Faults of runs -/

/-- A fault and the context it has left: it comes from an instruction, from the test of what
the condition of a loop has left, or from the nesting limit. -/
inductive FaultAt : Fault → Context → Prop where
  | instruction {i : Instruction} {c d : Context} {fault : Fault}
    (failed : i.perform c = .error fault d) : FaultAt fault d
  | condition {c d : Context} {fault : Fault}
    (failed : Action.popBool '#' c = .error fault d) : FaultAt fault d
  | limit (c : Context) : FaultAt (.recursionLimit c.limit) c

/-- If a run ends here with an error, it is a fault that has been raised, and the context has
been changed since then in its depth only. -/
def Status.Explained (s : Status) : Prop :=
  ∀ e d, s = .ended ⟨.error e, d⟩ → ∃ left depth, FaultAt e.val left ∧ d = { left with depth }

namespace Machine

theorem explained_running (m : Machine) : (Status.running m).Explained := by
  intro e d eq
  cases eq

theorem explained_fail {c : Context} {fault : Fault} (raised : FaultAt fault c) (line : Nat)
    (frames : List Frame) : (fail line fault c frames).Explained := by
  intro e d eq
  cases eq
  exact ⟨c, _, raised, c.unwind_eq frames⟩

theorem explained_enter (line : Nat) (body : Code) (frame : Frame) (c : Context)
    (frames : List Frame) : (enter line body frame c frames).Explained := by
  unfold enter Action.enter
  by_cases full : c.limit ≤ c.depth
  · rw [if_pos full]
    exact explained_fail (.limit c) line frames
  · rw [if_neg full]
    exact explained_running _

theorem explained_test (loop : Loop) (rest : Code) (c : Context) (frames : List Frame) :
    (test loop rest c frames).Explained := by
  unfold test
  cases hr : Action.popBool '#' c with
  | ok more d =>
    cases more with
    | true => exact explained_enter _ _ _ _ _
    | false => exact explained_running _
  | error fault d => exact explained_fail (.condition hr) _ _

theorem explained_advance (i : Instruction) (rest : Code) (c : Context) (frames : List Frame) :
    (advance i rest c frames).Explained := by
  unfold advance
  cases hr : i.perform c with
  | ok effect d =>
    cases effect with
    | proceed => exact explained_running _
    | call body => exact explained_enter _ _ _ _ _
    | loop condition body => exact explained_enter _ _ _ _ _
  | error fault d => exact explained_fail (.instruction hr) _ _

theorem explained_step (m : Machine) : m.step.Explained := by
  obtain ⟨c, code, frames⟩ := m
  cases code with
  | cons i rest => exact explained_advance i rest c frames
  | nil =>
    match frames with
    | [] =>
      intro e d eq
      cases eq
    | .resume rest :: frames => exact explained_running _
    | .test loop rest :: frames => exact explained_test loop rest _ frames
    | .again loop rest :: frames => exact explained_enter _ _ _ _ frames

/-- The step that ends a run explains its error, at whatever depth it is made. -/
theorem explained_run {n : Nat} {m : Machine} {o : Outcome} (h : m.run n = some o) :
    (Status.ended o).Explained := by
  induction n generalizing m with
  | zero => cases h
  | succ n ih =>
    have stepped := m.explained_step
    unfold run at h
    cases hs : m.step with
    | running next =>
      rw [hs] at h
      exact ih h
    | ended outcome =>
      rw [hs] at h stepped
      cases h
      exact stepped

end Machine

/-- Whatever misses an operand has found the stack empty. -/
theorem FaultAt.stack_eq_nil {symbol : Char} {d : Context}
    (h : FaultAt (.stackUnderflow symbol) d) : d.stack = [] := by
  cases h with
  | @instruction i c _ _ failed =>
    have leaves := i.perform_leaves c
    rw [Action.Leaves, failed] at leaves
    exact leaves.underflow symbol rfl
  | @condition c _ _ failed =>
    have leaves : Action.Leaves 1 0 [] (Action.popBool '#' >>= pure) c :=
      Action.leaves_popAs (ofValues_toBool '#') fun _ _ _ _ _ => Action.leaves_pushed [] rfl
    rw [bind_pure, Action.Leaves, failed] at leaves
    exact leaves.underflow symbol rfl

/-! ## Failures -/

/-- **A failure spares the context.** An instruction that runs no code and fails does so on
its own line: variables and depth are as before, the stack has lost no more than the operands
and got nothing, nothing was read, and only a device that fails can have taken a first part of
the bytes. If it does not fail, the operands, the results and the bytes are those of the
tables. And whatever code a run is of, if it ends for a missing operand, at any depth, the
stack is empty. -/
theorem failure_spares_context {c : Context} {steps : Nat} :
    (∀ {i : Instruction} {e : RuntimeError} {d : Context}, i.runsCode = false →
      c.run steps [i] = some ⟨.error e, d⟩ →
      e.line = i.line ∧ Disturbed i.pops (i.offers c.stack) c e.val d) ∧
    (∀ {i : Instruction} {d : Context}, i.runsCode = false →
      c.run steps [i] = some ⟨.ok (), d⟩ →
      Completed i.pops i.pushes (i.offers c.stack) c d) ∧
    (∀ {code : Code} {line : Nat} {symbol : Char} {d : Context},
      c.run steps code = some ⟨.error ⟨line, .stackUnderflow symbol⟩, d⟩ → d.stack = []) := by
  refine ⟨?_, ?_, ?_⟩
  · intro i e d plain ended
    have leaves := i.perform_leaves c
    obtain ⟨d, performed, eq⟩ | ⟨fault, d, performed, eq⟩ := Context.run_single plain ended
    · cases eq
    · cases eq
      rw [Action.Leaves, performed] at leaves
      exact ⟨rfl, leaves⟩
  · intro i d plain ended
    have leaves := i.perform_leaves c
    obtain ⟨d, performed, eq⟩ | ⟨fault, d, performed, eq⟩ := Context.run_single plain ended
    · cases eq
      rw [Action.Leaves, performed] at leaves
      exact leaves
    · cases eq
  · intro code line symbol d ended
    obtain ⟨left, depth, raised, rfl⟩ := Machine.explained_run ended _ _ rfl
    exact raised.stack_eq_nil

/-- A rotation with two values to rotate, a text of five bytes for a device that holds three,
a swap that does not fail, and inside a call a loop whose condition leaves nothing to test. -/
theorem failure_spares_context_parts :
    (Context.run 2 [.op 7 (.primitive .rotate)]
        { stack := [.integer 1, .name ⟨0⟩], depth := 4 } =
        some ⟨.error ⟨7, .stackUnderflow '@'⟩, { depth := 4 }⟩ ∧
      Disturbed 3 [] { stack := [.integer 1, .name ⟨0⟩], depth := 4 } (.stackUnderflow '@')
        { depth := 4 }) ∧
    (Context.run 2 [.op 2 (.print "false")] { output := { capacity := some 3 } } =
        some ⟨.error ⟨2, .io .sinkFull⟩,
          { output := { written := "fal".toUTF8.data, capacity := some 3 } }⟩ ∧
      Disturbed 0 (Utf8.encode "false".toList) { output := { capacity := some 3 } }
        (.io .sinkFull) { output := { written := "fal".toUTF8.data, capacity := some 3 } }) ∧
    (Context.run 2 [.op 1 (.primitive .swap)] { stack := [.integer 1, .integer 2] } =
        some ⟨.ok (), { stack := [.integer 2, .integer 1] }⟩ ∧
      Completed 2 2 [] { stack := [.integer 1, .integer 2] }
        { stack := [.integer 2, .integer 1] }) ∧
    (Context.run 8 [.quotation 1 [.quotation 2 [], .quotation 2 [], .op 3 .loop],
        .op 4 (.execute false)] {} = some ⟨.error ⟨3, .stackUnderflow '#'⟩, {}⟩ ∧
      ({} : Context).stack = []) := by
  refine ⟨?rotation, ?text, ?swap, ?condition⟩
  case rotation =>
    have ended : Context.run 2 [.op 7 (.primitive .rotate)]
        { stack := [.integer 1, .name ⟨0⟩], depth := 4 } =
        some ⟨.error ⟨7, .stackUnderflow '@'⟩, { depth := 4 }⟩ := rfl
    exact ⟨ended, (failure_spares_context.1 rfl ended).2⟩
  case text =>
    have ended : Context.run 2 [.op 2 (.print "false")] { output := { capacity := some 3 } } =
        some ⟨.error ⟨2, .io .sinkFull⟩,
          { output := { written := "fal".toUTF8.data, capacity := some 3 } }⟩ := by
      with_unfolding_all rfl
    exact ⟨ended, (failure_spares_context.1 rfl ended).2⟩
  case swap =>
    have ended : Context.run 2 [.op 1 (.primitive .swap)] { stack := [.integer 1, .integer 2] } =
        some ⟨.ok (), { stack := [.integer 2, .integer 1] }⟩ := rfl
    exact ⟨ended, failure_spares_context.2.1 rfl ended⟩
  case condition =>
    have ended : Context.run 8 [.quotation 1 [.quotation 2 [], .quotation 2 [], .op 3 .loop],
        .op 4 (.execute false)] {} = some ⟨.error ⟨3, .stackUnderflow '#'⟩, {}⟩ := rfl
    exact ⟨ended, failure_spares_context.2.2 ended⟩

end FalseLang
