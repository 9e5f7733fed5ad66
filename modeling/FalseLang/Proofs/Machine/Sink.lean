import FalseLang.Proofs.Machine.Depth
import FalseLang.Proofs.Machine.Failure
import FalseLang.Proofs.Machine.Simulation

/-
  Sinks: a bounded output only cuts off what is written.

  A device that holds `n` bytes takes what it is offered up to the last byte there is
  room for, in however many calls, and refuses the rest (`Output.write_of_capacity`).
  `Bounded` compares a run on such a device with the run on one without bounds. All
  instructions do the same in both, and those that write do so or overrun the bounded
  device (`Bounded.parallel_io`): it is then full, and the other run has just passed
  its `n`-th byte. That ends the bounded run, on the line of the instruction.

  `sink_cuts_output` states it for whole runs.
-/

namespace FalseLang

/-! ## Writing to a device with and without bounds -/

namespace Output

/-- The same device with other bounds: how many bytes one call takes, and how many it holds. -/
def bounded (perCall capacity : Option Nat) (o : Output) : Output :=
  { o with perCall := perCall, capacity := capacity }

theorem append_nil (o : Output) : o.append [] = o := by
  simp [append]

theorem append_append (o : Output) (a b : List UInt8) :
    (o.append a).append b = o.append (a ++ b) := by
  have same : o.written ++ a ++ b = o.written ++ (a ++ b) := Array.toList_inj.1 (by simp)
  simp only [append, same]

theorem size_append (o : Output) (bytes : List UInt8) :
    (o.append bytes).written.size = o.written.size + bytes.length := by
  rw [← Array.length_toList, written_append, List.length_append, Array.length_toList]

/-- A call takes no more than there is room for, and takes something unless the device is
full. -/
theorem accepts_of_capacity {o : Output} {n : Nat} (takes : o.perCall ≠ some 0)
    (capacity : o.capacity = some n) :
    ∃ k, o.accepts = some k ∧ k ≤ n - o.written.size ∧ (k = 0 → n ≤ o.written.size) := by
  unfold accepts
  rw [capacity]
  cases perCall : o.perCall with
  | none => exact ⟨_, rfl, Nat.le_refl _, by omega⟩
  | some c =>
    have positive : c ≠ 0 := by
      rintro rfl
      exact takes perCall
    exact ⟨_, rfl, Nat.min_le_right _ _, by omega⟩

/-- However many calls it takes, the bytes that there is room for are written, and the first
one that there is no room for is refused. -/
theorem write_of_capacity {n : Nat} (bytes : List UInt8) {o : Output} (takes : o.perCall ≠ some 0)
    (capacity : o.capacity = some n) (within : o.written.size ≤ n) :
    Output.write bytes o =
      if o.written.size + bytes.length ≤ n then .ok () (o.append bytes)
      else .error o.refusal (o.append (bytes.take (n - o.written.size))) := by
  fun_induction Output.write bytes o with
  | case1 o => simp [within, append_nil]
  | case2 o b rest unlimited =>
    obtain ⟨k, accepted, -, -⟩ := accepts_of_capacity takes capacity
    rw [unlimited] at accepted
    cases accepted
  | case3 o b rest refused =>
    obtain ⟨k, accepted, -, full⟩ := accepts_of_capacity takes capacity
    rw [refused] at accepted
    cases accepted
    have full := full rfl
    have nothing : n - o.written.size = 0 := by omega
    rw [if_neg (by rw [List.length_cons]; omega), nothing, List.take_zero, append_nil]
  | case4 o b rest m taken ih =>
    obtain ⟨k, accepted, room, -⟩ := accepts_of_capacity takes capacity
    rw [taken] at accepted
    cases accepted
    have part : (b :: rest.take m).length = min (m + 1) (rest.length + 1) := by simp
    have grown := size_append o (b :: rest.take m)
    have whole : b :: rest.take m ++ rest.drop m = b :: rest := by simp
    -- The calls that follow find as many bytes to write in all as there were before.
    have total : (o.append (b :: rest.take m)).written.size + (rest.drop m).length =
        o.written.size + (b :: rest).length := by
      rw [List.length_drop, List.length_cons]
      omega
    rw [ih takes capacity (by omega), append_append, append_append, whole, total]
    split
    · rfl
    · rename_i exceeds
      rw [List.length_cons] at exceeds
      have left : n - o.written.size =
          (m + 1) + (n - (o.append (b :: rest.take m)).written.size) := by omega
      rw [left, List.take_add]
      rfl

/-- A device on which no write fails: each call takes something, and there is room for all. -/
structure TakesAll (o : Output) : Prop where
  perCall : o.perCall ≠ some 0
  capacity : o.capacity = none

namespace TakesAll

variable {o : Output}

theorem append (h : o.TakesAll) (bytes : List UInt8) : (o.append bytes).TakesAll :=
  ⟨h.perCall, h.capacity⟩

/-- Without a bound on the whole, only the bound on one call counts. -/
theorem accepts_eq (h : o.TakesAll) : o.accepts = o.perCall := by
  unfold accepts
  rw [h.capacity]
  cases o.perCall <;> rfl

/-- However many calls it takes, all bytes are written. -/
theorem write_eq (h : o.TakesAll) (bytes : List UInt8) :
    Output.write bytes o = .ok () (o.append bytes) := by
  fun_induction Output.write bytes o with
  | case1 o => rw [append_nil]
  | case2 o b rest all => rfl
  | case3 o b rest refused => exact absurd (h.accepts_eq.symm.trans refused) h.perCall
  | case4 o b rest n taken ih =>
    rw [ih (h.append _), append_append]
    simp

end TakesAll

/-- Bounds make no difference to a flush. -/
theorem flush_bounded (perCall capacity : Option Nat) (o : Output) :
    Output.flush (o.bounded perCall capacity) =
      match Output.flush o with
      | .ok u flushed => .ok u (flushed.bounded perCall capacity)
      | .error e flushed => .error e (flushed.bounded perCall capacity) := by
  unfold Output.flush bounded
  dsimp only
  split <;> rfl

end Output

/-! ## Contexts on two sinks -/

/-- The same context on a device with other bounds. -/
def Context.onSink (perCall capacity : Option Nat) (c : Context) : Context :=
  { c with output := c.output.bounded perCall capacity }

/-- A device without bounds that holds no more than `n` bytes yet. -/
structure Output.Roomy (n : Nat) (refusal : DeviceError) (o : Output) : Prop where
  perCall : o.perCall = none
  capacity : o.capacity = none
  refusal : o.refusal = refusal
  within : o.written.size ≤ n

theorem Output.Roomy.takesAll {n : Nat} {refusal : DeviceError} {o : Output}
    (h : o.Roomy n refusal) : o.TakesAll :=
  ⟨by simp [h.perCall], h.capacity⟩

theorem Output.Roomy.flush {n : Nat} {refusal : DeviceError} {o : Output}
    (h : o.Roomy n refusal) : (resultState (Output.flush o)).Roomy n refusal := by
  unfold Output.flush
  dsimp only
  split <;> exact ⟨h.perCall, h.capacity, h.refusal, h.within⟩

/-- The first context is the second one on a device that holds `n` bytes. -/
structure Bounded (perCall : Option Nat) (n : Nat) (refusal : DeviceError) (c d : Context) :
    Prop where
  eq : c = d.onSink perCall (some n)
  output : d.output.Roomy n refusal

/-- The bounded device is full and has refused a byte: it holds the first `n` bytes of those on
the device without bounds, which are more. -/
structure Overrun (n : Nat) (refusal : DeviceError) (fault : Fault) (c d : Context) : Prop where
  fault : fault = .io refusal
  passed : n < d.output.written.size
  written : c.output.written.toList = d.output.written.toList.take n

theorem Corresponds.mono {α β : Type} {R : Context → Context → Prop}
    {E E' : Fault → Context → Context → Prop} {V : α → β → Prop}
    {r : EStateM.Result Fault Context α} {r' : EStateM.Result Fault Context β}
    (h : Corresponds R E V r r') (excuse : ∀ {fault c d}, E fault c d → E' fault c d) :
    Corresponds R E' V r r' := by
  cases h with
  | ok value context => exact .ok value context
  | error fault context => exact .error fault context
  | excused old => exact .excused (excuse old)

namespace Bounded

variable {perCall : Option Nat} {n : Nat} {refusal : DeviceError} {c d : Context}
  {E : Fault → Context → Context → Prop}

/-- The comparison of a run on a bounded device with one on a device without bounds. -/
def comparison (perCall : Option Nat) (n : Nat) (refusal : DeviceError)
    (E : Fault → Context → Context → Prop) : Comparison :=
  .sameCode (Bounded perCall n refusal) E

theorem sameValues : Comparison.SameValues (Bounded perCall n refusal) where
  stack h := by rw [h.eq]; rfl
  environment h := by rw [h.eq]; rfl
  withStack _ h := ⟨by rw [h.eq]; rfl, h.output⟩
  withEnvironment _ h := ⟨by rw [h.eq]; rfl, h.output⟩

/-! ### Devices -/

theorem acts_flushOutput :
    (comparison perCall n refusal E).Acts Eq Action.flushOutput Action.flushOutput := by
  intro c d h
  obtain ⟨rfl, room⟩ := h
  have both := Output.flush_bounded perCall (some n) d.output
  have after := room.flush
  cases flushed : d.output.flush with
  | ok u o =>
    rw [flushed] at both after
    have first : Action.flushOutput (d.onSink perCall (some n)) = .ok () _ :=
      Action.onOutput_of_ok both
    have second : Action.flushOutput d = .ok () _ := Action.onOutput_of_ok flushed
    rw [first, second]
    exact .ok rfl ⟨rfl, after⟩
  | error e o =>
    rw [flushed] at both after
    have first : Action.flushOutput (d.onSink perCall (some n)) = .error _ _ :=
      Action.onOutput_of_error both
    have second : Action.flushOutput d = .error _ _ := Action.onOutput_of_error flushed
    rw [first, second]
    exact .error _ ⟨rfl, after⟩

theorem acts_flushInput :
    (comparison perCall n refusal E).Acts Eq Action.flushInput Action.flushInput := by
  intro c d h
  obtain ⟨rfl, room⟩ := h
  unfold Action.flushInput Context.onSink
  cases d.input.flush with
  | ok u i => exact .ok rfl ⟨rfl, room⟩
  | error e i => exact .error _ ⟨rfl, room⟩

theorem acts_readChar :
    (comparison perCall n refusal E).Acts Eq Action.readChar Action.readChar := by
  intro c d h
  obtain ⟨rfl, room⟩ := h
  unfold Action.readChar Context.onSink
  cases d.input.readChar with
  | ok char i => exact .ok rfl ⟨rfl, room⟩
  | error e i => exact .ok rfl ⟨rfl, room⟩

/-- Both devices take the bytes, or the bounded one is overrun. -/
theorem write (takes : perCall ≠ some 0) (bytes : List UInt8)
    (h : Bounded perCall n refusal c d) :
    Corresponds (Bounded perCall n refusal) (Overrun n refusal) Eq (Action.write bytes c)
      (Action.write bytes d) := by
  obtain ⟨rfl, room⟩ := h
  have all := room.takesAll.write_eq bytes
  have taken := Output.write_of_capacity (o := d.output.bounded perCall (some n)) bytes takes rfl
    room.within
  have size := d.output.size_append bytes
  unfold Action.write
  rw [Action.onOutput_of_ok all]
  by_cases fits : d.output.written.size + bytes.length ≤ n
  · have ok := taken.trans (if_pos fits)
    rw [Action.onOutput_of_ok ok]
    refine .ok rfl ⟨rfl, room.perCall, room.capacity, room.refusal, ?_⟩
    rw [size]
    exact fits
  · have refused := taken.trans (if_neg fits)
    rw [Action.onOutput_of_error refused]
    refine .excused ⟨congrArg Fault.io room.refusal, ?_, ?_⟩
    · show n < (d.output.append bytes).written.size
      omega
    · show (Output.append _ _).written.toList = (d.output.append bytes).written.toList.take n
      have before : d.output.written.toList.take n = d.output.written.toList :=
        List.take_of_length_le (by rw [Array.length_toList]; exact room.within)
      rw [Output.written_append, Output.written_append, List.take_append, before,
        Array.length_toList]
      rfl

theorem enter (h : Bounded perCall n refusal c d) :
    Corresponds (Bounded perCall n refusal) E Eq (Action.enter c) (Action.enter d) := by
  obtain ⟨rfl, room⟩ := h
  unfold Action.enter Context.onSink
  dsimp only
  split
  · exact .error _ ⟨rfl, room⟩
  · exact .ok rfl ⟨rfl, room⟩

/-- Only what a bounded device refuses sets the two runs apart. -/
theorem lawful (takes : perCall ≠ some 0) :
    (comparison perCall n refusal fun fault _ _ => fault = .io refusal).Lawful where
  push := sameValues.push
  pop := sameValues.acts_pop
  peek symbol := Comparison.sameCode_look fun h => by rw [sameValues.stack h]
  pick index := Comparison.sameCode_look fun h => by rw [sameValues.stack h]
  load name _ := Comparison.sameCode_look fun h => by rw [sameValues.environment h]
  store _ := sameValues.store
  write text _ _ h := (write takes _ h).mono fun overrun _ _ => overrun.fault
  flushOutput := acts_flushOutput
  flushInput := acts_flushInput
  readChar := acts_readChar
  enter := enter
  unwind k h := ⟨by rw [h.eq]; rfl, h.output⟩
  body same := same ▸ Comparison.sameCode_codes _
  later excuse _ := excuse
  excused_unwind _ excuse := excuse

/-! ### Instructions -/

/-- An action does the same on both devices, or overruns the bounded one. -/
def Parallel {α : Type} (perCall : Option Nat) (n : Nat) (refusal : DeviceError) (x : Action α) :
    Prop :=
  ∀ ⦃c d⦄, Bounded perCall n refusal c d →
    Corresponds (Bounded perCall n refusal) (Overrun n refusal) Eq (x c) (x d)

/-- An action does the same on both devices in any case. -/
abbrev Same {α : Type} (perCall : Option Nat) (n : Nat) (refusal : DeviceError) (x : Action α) :
    Prop :=
  (comparison perCall n refusal fun _ _ _ => False).Acts Eq x x

section Parallel
variable {α β : Type} {x : Action α} {f : α → Action β}

theorem Same.parallel (h : Same perCall n refusal x) : Parallel perCall n refusal x :=
  fun c d bounded => (h bounded).mono fun never => (never c d).elim

/-- Writing comes last: all that is done before it is the same on both devices. -/
theorem parallel_bind (hx : Same perCall n refusal x) (hf : ∀ a, Parallel perCall n refusal (f a)) :
    Parallel perCall n refusal (x >>= f) := by
  intro c d bounded
  show Corresponds _ _ Eq (EStateM.bind x f c) (EStateM.bind x f d)
  have first := hx bounded
  unfold EStateM.bind
  revert first
  generalize x c = r, x d = r'
  intro first
  cases first with
  | ok same after =>
    cases same
    exact hf _ after
  | error fault after => exact .error fault after
  | excused never => exact (never c d).elim

theorem parallel_then (hx : Parallel perCall n refusal x) (b : β) :
    Parallel perCall n refusal (x >>= fun _ => pure b) := by
  intro c d bounded
  show Corresponds _ _ Eq (EStateM.bind x _ c) (EStateM.bind x _ d)
  have first := hx bounded
  unfold EStateM.bind
  revert first
  generalize x c = r, x d = r'
  intro first
  cases first with
  | ok same after => exact .ok rfl after
  | error fault after => exact .error fault after
  | @excused fault c r' overrun =>
    cases r' with
    | ok a d => exact .excused overrun
    | error fault d => exact .excused overrun

theorem same_popInteger (symbol : Char) : Same perCall n refusal (Action.popInteger symbol) :=
  Comparison.Acts.bind (sameValues.acts_pop symbol)
    fun _ _ h => Comparison.Acts.lift_eq (h.toInteger_eq symbol)

theorem same_pushInteger (k : Int64) : Same perCall n refusal (Action.pushInteger k) :=
  fun _ _ h => .ok rfl (sameValues.push (E := fun _ _ _ => False)
    (Comparison.sameCode_values.2 rfl) h)

/-- The operations that use a device: all that can go apart is a write. -/
theorem parallel_io {o : Op} {limit : Nat} {e : DeviceError} (takes : perCall ≠ some 0)
    (io : o.Raises limit (.io e)) : Parallel perCall n refusal o.perform := by
  have writes (bytes : List UInt8) : Parallel perCall n refusal (Action.write bytes) :=
    fun _ _ h => write takes bytes h
  simp only [Op.Raises, List.mem_cons, List.not_mem_nil, or_false] at io
  rcases io with ⟨text, rfl⟩ | rfl | rfl | rfl | rfl
  · exact parallel_then (writes _) _
  · refine parallel_then (parallel_bind (same_popInteger _) fun code => ?_) _
    exact parallel_bind (Comparison.Acts.lift _) fun char => writes _
  · exact parallel_then (parallel_bind (same_popInteger _) fun k => writes _) _
  · refine parallel_then (Same.parallel ?_) _
    refine Comparison.Acts.bind_eq acts_flushOutput fun _ => ?_
    refine Comparison.Acts.bind_eq acts_readChar fun char => ?_
    cases char <;> exact same_pushInteger _
  · refine parallel_then (Same.parallel ?_) _
    exact Comparison.Acts.bind_eq acts_flushInput fun _ => acts_flushOutput

end Parallel

end Bounded

/-! ## Steps and runs -/

theorem Context.output_unwind (frames : List Frame) (c : Context) :
    (c.unwind frames).output = c.output := by
  rw [c.unwind_eq]

namespace Machine

theorem output_enter (line : Nat) (body : Code) (frame : Frame) (c : Context)
    (frames : List Frame) : (enter line body frame c frames).context.output = c.output := by
  unfold enter Action.enter
  by_cases full : c.limit ≤ c.depth
  · rw [if_pos full]
    exact c.output_unwind frames
  · rw [if_neg full]
    rfl

/-- What a step writes is what its instruction writes. -/
theorem output_advance (i : Instruction) (rest : Code) (c : Context) (frames : List Frame) :
    (advance i rest c frames).context.output = (resultState (i.perform c)).output := by
  unfold advance
  cases i.perform c with
  | error fault d => exact d.output_unwind frames
  | ok effect d =>
    cases effect with
    | proceed => rfl
    | call body => exact output_enter _ _ _ _ _
    | loop condition body => exact output_enter _ _ _ _ _

theorem enter_ne_io {line k : Nat} {body : Code} {frame : Frame} {c d : Context}
    {frames : List Frame} {e : DeviceError} :
    enter line body frame c frames ≠ .ended ⟨.error ⟨k, .io e⟩, d⟩ := by
  unfold enter Action.enter
  by_cases full : c.limit ≤ c.depth
  · rw [if_pos full]
    intro h
    cases h
  · rw [if_neg full]
    intro h
    cases h

theorem test_ne_io {loop : Loop} {rest : Code} {k : Nat} {c d : Context} {frames : List Frame}
    {e : DeviceError} : test loop rest c frames ≠ .ended ⟨.error ⟨k, .io e⟩, d⟩ := by
  unfold test
  cases popped : Action.popBool '#' c with
  | ok more left =>
    cases more with
    | true => exact enter_ne_io
    | false =>
      intro h
      cases h
  | error fault left =>
    have raised : Op.loop.Raises c.limit fault := Op.raisesOnly_popBool rfl c fault left popped
    intro h
    cases h
    simp [Op.Raises] at raised

/-- A device fails only where an instruction uses it. -/
theorem instruction_of_io {m : Machine} {line : Nat} {e : DeviceError} {d : Context}
    (h : m.step = .ended ⟨.error ⟨line, .io e⟩, d⟩) :
    ∃ i rest left, m.code = i :: rest ∧ i.perform m.context = .error (.io e) left := by
  obtain ⟨c, code, frames⟩ := m
  cases code with
  | nil =>
    match frames with
    | [] => cases h
    | .resume rest :: outer => cases h
    | .test loop rest :: outer => exact absurd h test_ne_io
    | .again loop rest :: outer => exact absurd h enter_ne_io
  | cons i rest =>
    change advance i rest c frames = _ at h
    unfold advance at h
    cases performed : i.perform c with
    | ok effect left =>
      rw [performed] at h
      cases effect with
      | proceed => cases h
      | call body => exact absurd h enter_ne_io
      | loop condition body => exact absurd h enter_ne_io
    | error fault left =>
      rw [performed] at h
      cases h
      exact ⟨i, rest, left, rfl, performed⟩

end Machine

namespace Bounded

variable {perCall : Option Nat} {n : Nat} {refusal : DeviceError}

/-- The comparison by which the two runs stay in step. -/
abbrev inStep (perCall : Option Nat) (n : Nat) (refusal : DeviceError) : Comparison :=
  comparison perCall n refusal fun fault _ _ => fault = .io refusal

/-- What a step leads to on both devices: the same, or an instruction overruns the bounded
one and ends its run. -/
inductive Steps (perCall : Option Nat) (n : Nat) (refusal : DeviceError) (code : Code) :
    Status → Status → Prop where
  | running {m m' : Machine} (h : (inStep perCall n refusal).Machines m m') :
    Steps perCall n refusal code (.running m) (.running m')
  | ended {o o' : Outcome} (h : (inStep perCall n refusal).Outcomes o o') :
    Steps perCall n refusal code (.ended o) (.ended o')
  | overrun {i : Instruction} {rest : Code} {c : Context} {s : Status} (first : code = i :: rest)
    (h : Overrun n refusal (.io refusal) c s.context) :
    Steps perCall n refusal code (.ended ⟨.error ⟨i.line, .io refusal⟩, c⟩) s

/-- Instructions that match are performed alike. -/
theorem perform_eq {i j : Instruction} (h : (inStep perCall n refusal).Matches i j) :
    i.perform = j.perform ∧ i.line = j.line := by
  cases h with
  | op line perform => exact ⟨perform, line⟩
  | quotation line body =>
    cases (body : _ = _)
    exact ⟨rfl, line⟩

/-- An instruction that fails on the bounded device because of the device. -/
theorem advance_io (takes : perCall ≠ some 0) {i j : Instruction} {a b : Code} {c d left : Context}
    {fs gs : List Frame} (context : Bounded perCall n refusal c d)
    (first : (inStep perCall n refusal).Matches i j)
    (frames : (inStep perCall n refusal).Frames fs gs)
    (failed : i.perform c = .error (.io refusal) left) :
    Steps perCall n refusal (j :: b) (Machine.advance i a c fs) (Machine.advance j b d gs) := by
  obtain ⟨same, line⟩ := perform_eq first
  have raised := i.perform_raises c.limit c _ left failed
  have both : Corresponds (Bounded perCall n refusal) (Overrun n refusal) Eq (i.perform c)
      (i.perform d) := by
    cases i with
    | op l o => exact parallel_io takes (show o.Raises c.limit (.io refusal) from raised) context
    | quotation l body => cases raised
  have written := Machine.output_advance j b d gs
  have stops : Machine.advance i a c fs = Machine.fail i.line (.io refusal) left fs := by
    simp only [Machine.advance, failed]
  rw [← same] at written
  rw [failed] at both
  rw [stops, line]
  generalize performed : i.perform d = r at both written
  cases both with
  | @error _ left' _ after =>
    rw [same] at performed
    have alike : Machine.advance j b d gs = Machine.fail j.line (.io refusal) left' gs := by
      simp only [Machine.advance, performed]
    rw [alike]
    unfold Machine.fail
    rw [left.unwind_eq, left'.unwind_eq, frames.length_eq]
    exact .ended (.error _ rfl ((lawful takes).unwind gs.length after))
  | excused overrun =>
    refine .overrun rfl ⟨rfl, ?_, ?_⟩
    · rw [written]
      exact overrun.passed
    · rw [written, left.output_unwind]
      exact overrun.written

theorem step (takes : perCall ≠ some 0) {m m' : Machine}
    (h : (inStep perCall n refusal).Machines m m') :
    Steps perCall n refusal m'.code m.step m'.step := by
  have stepped := (lawful takes).step h
  generalize stops : m.step = s, other : m'.step = s' at stepped ⊢
  cases stepped with
  | running next => exact .running next
  | ended outcome => exact .ended outcome
  | excused excuse =>
    cases excuse with
    | fault io =>
      cases io
      obtain ⟨i, rest, left, code, failed⟩ := Machine.instruction_of_io stops
      rw [← stops, ← other]
      obtain ⟨c, _, fs⟩ := m
      obtain ⟨d, _, gs⟩ := m'
      obtain ⟨context, codes, frames⟩ := h
      cases code
      cases codes with
      | cons first others => exact advance_io takes context first frames failed

/-- A run that ends on the device without bounds ends on the bounded one too: alike, or where
an instruction overruns the device. -/
theorem run (takes : perCall ≠ some 0) {steps : Nat} {m m' : Machine} {p : Outcome}
    (h : (inStep perCall n refusal).Machines m m') (ended : m'.run steps = some p) :
    ∃ o, m.run steps = some o ∧
      ((inStep perCall n refusal).Outcomes o p ∨
        ∃ j k i rest, m'.after j = .running k ∧ k.code = i :: rest ∧
          k.context.output.written.size ≤ n ∧ k.step.context.Later p.context ∧
          o.result = .error ⟨i.line, .io refusal⟩ ∧
          Overrun n refusal (.io refusal) o.context k.step.context) := by
  induction steps generalizing m m' with
  | zero => cases ended
  | succ steps ih =>
    have stepped := step takes h
    unfold Machine.run at ended ⊢
    generalize m.step = s, other : m'.step = s' at stepped ended ⊢
    cases stepped with
    | running next =>
      obtain ⟨o, finished, alike | ⟨j, k, i, rest, reached, found⟩⟩ := ih next ended
      · exact ⟨o, finished, .inl alike⟩
      · refine ⟨o, finished, .inr ⟨j + 1, k, i, rest, ?_, found⟩⟩
        unfold Machine.after
        rw [other]
        exact reached
    | ended outcome =>
      cases ended
      exact ⟨_, rfl, .inl outcome⟩
    | @overrun i rest c _ code overrun =>
      have later : s'.context.Later p.context := by
        cases s' with
        | running next => exact Machine.later_of_run ended
        | ended o =>
          cases ended
          exact Context.Later.refl _
      rw [← other] at later overrun
      exact ⟨_, rfl, .inr ⟨0, m', i, rest, rfl, code, h.context.output.within, later, rfl, overrun⟩⟩

end Bounded

/-- **A bounded sink only cuts the output.** Let a run end on a device without bounds. On one
that holds `n` bytes, of which each call takes any number but none, it ends too. If all bytes
fit, the outcome is the same. If not, the run fails where the instruction stands whose bytes
are the first to pass the `n`-th, and the device holds exactly the first `n` bytes. -/
theorem sink_cuts_output {perCall : Option Nat} {n steps : Nat} {code : Code} {c : Context}
    {p : Outcome} (takes : perCall ≠ some 0) (within : c.output.written.size ≤ n)
    (ended : Context.run steps code (c.onSink none none) = some p) :
    ∃ o, Context.run steps code (c.onSink perCall (some n)) = some o ∧
      (p.context.output.written.size ≤ n →
        o.result = p.result ∧ o.context = p.context.onSink perCall (some n)) ∧
      (n < p.context.output.written.size →
        o.context.output.written.toList = p.context.output.written.toList.take n ∧
        ∃ j k i rest, Machine.after j ⟨c.onSink none none, code, []⟩ = .running k ∧
          k.code = i :: rest ∧ k.context.output.written.size ≤ n ∧
          n < k.step.context.output.written.size ∧
          o.result = .error ⟨i.line, .io c.output.refusal⟩) := by
  have start : Bounded perCall n c.output.refusal (c.onSink perCall (some n))
      (c.onSink none none) := ⟨rfl, rfl, rfl, rfl, within⟩
  obtain ⟨o, finished, alike | ⟨j, k, i, rest, reached, first, below, later, failed, overrun⟩⟩ :=
    Bounded.run takes (Comparison.sameCode_machines start code) ended
  · obtain ⟨result, bounded⟩ := Comparison.sameCode_outcomes alike
    refine ⟨o, finished, fun _ => ⟨result.symm, bounded.eq⟩, fun many => ?_⟩
    exact absurd bounded.output.within (Nat.not_le_of_lt many)
  · -- What the other run has written by then is a first part of what it writes in all.
    obtain ⟨others, whole⟩ := later.output
    have longer : k.step.context.output.written.size ≤ p.context.output.written.size := by
      rw [← Array.length_toList, ← Array.length_toList]
      exact later.output.length_le
    have passed := overrun.passed
    refine ⟨o, finished, fun few => absurd few (by omega), fun _ => ⟨?_, ?_⟩⟩
    · rw [overrun.written, ← whole, List.take_append_of_le_length]
      rw [Array.length_toList]
      exact Nat.le_of_lt passed
    · exact ⟨j, k, i, rest, reached, first, below, passed, failed⟩

/-- A loop that writes a character of two bytes twice, to a device that takes one byte in a call:
of three bytes there is room for the last is the first half of a character, and with room for
four the run ends well. -/
theorem sink_cuts_output_halfway :
    (∃ o line, Context.run 20 [.op 1 (.integer 2), .quotation 2 [.op 2 (.primitive .duplicate)],
          .quotation 3 [.op 4 (.print "é"), .op 5 (.integer 1), .op 5 (.primitive .subtract)],
          .op 6 .loop] { output := { perCall := some 1, capacity := some 3 } } = some o ∧
      o.result = .error ⟨line, .io .sinkFull⟩ ∧
      o.context.output.written.toList = [0xC3, 0xA9, 0xC3]) ∧
    Context.run 20 [.op 1 (.integer 2), .quotation 2 [.op 2 (.primitive .duplicate)],
          .quotation 3 [.op 4 (.print "é"), .op 5 (.integer 1), .op 5 (.primitive .subtract)],
          .op 6 .loop] { output := { perCall := some 1, capacity := some 4 } } =
      some ⟨.ok (), Context.onSink (some 1) (some 4)
        { stack := [.integer 0], output := { written := #[0xC3, 0xA9, 0xC3, 0xA9] } }⟩ := by
  have ended : Context.run 20 [.op 1 (.integer 2), .quotation 2 [.op 2 (.primitive .duplicate)],
        .quotation 3 [.op 4 (.print "é"), .op 5 (.integer 1), .op 5 (.primitive .subtract)],
        .op 6 .loop] (Context.onSink none none {}) =
      some ⟨.ok (),
        { stack := [.integer 0], output := { written := #[0xC3, 0xA9, 0xC3, 0xA9] } }⟩ := by
    with_unfolding_all rfl
  constructor
  · obtain ⟨o, finished, -, cut⟩ :=
      sink_cuts_output (n := 3) (c := {}) (by decide : some 1 ≠ some 0) (by decide) ended
    obtain ⟨written, j, k, i, rest, -, -, -, -, failed⟩ := cut (by decide)
    exact ⟨o, i.line, finished, failed, written⟩
  · obtain ⟨o, finished, same, -⟩ :=
      sink_cuts_output (n := 4) (c := {}) (by decide : some 1 ≠ some 0) (by decide) ended
    obtain ⟨result, context⟩ := same (by decide)
    obtain ⟨_, _⟩ := o
    cases result
    cases context
    exact finished

end FalseLang
