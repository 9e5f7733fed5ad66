import FalseLang.Machine

/-
  Progress: what every action does to a context, whatever else it does.

  A `Habit` is a relation between a context and a later one that the small actions
  keep. Then all instructions keep it (`Habit.instruction`), and so do steps and
  runs if entering and leaving quotations does (`Habit.run`). The instructions are
  gone through once, for all habits. On the way it is seen that no instruction
  raises the fault of the nesting limit by itself; the machine raises it, and
  names its own limit (`Machine.limit_of_run`).

  The habit used most is `Context.Later`: bytes that are written stay written, what
  is read is read from the front of what is left, and the limit stays. Input is
  compared by `Input.unread`, the deliveries cut into single bytes, so that a
  delivery of which only a part is read counts for what is left of it.
-/

namespace FalseLang

/-- A delivery in the smallest pieces it can be read in. -/
def Delivery.units : Delivery → List Delivery
  | .bytes (b :: rest) => (b :: rest).map fun b => .bytes [b]
  -- A delivery without bytes is an end of the input, and is used up as a whole.
  | d => [d]

/-- What is still to be read, byte by byte. -/
def unreadOf (deliveries : List Delivery) : List Delivery := deliveries.flatMap Delivery.units

def Input.unread (i : Input) : List Delivery := unreadOf i.deliveries

/-- One context can come later than another: its output has grown and its input has
been used up, each by any amount. -/
structure Context.Later (c d : Context) : Prop where
  output : c.output.written.toList <+: d.output.written.toList
  input : d.input.unread <:+ c.input.unread
  limit : d.limit = c.limit

namespace Context.Later

theorem refl (c : Context) : c.Later c := ⟨List.prefix_rfl, List.suffix_rfl, rfl⟩

theorem trans {a b c : Context} (h : a.Later b) (h' : b.Later c) : a.Later c :=
  ⟨h.output.trans h'.output, h'.input.trans h.input, h'.limit.trans h.limit⟩

end Context.Later

/-! ## Writing only adds bytes -/

theorem Utf8.encode_singleton (c : Char) : Utf8.encode [c] = String.utf8EncodeChar c := by
  simp [Utf8.encode]

theorem Output.written_append (o : Output) (bytes : List UInt8) :
    (o.append bytes).written.toList = o.written.toList ++ bytes := by
  simp [Output.append]

/-- The device that a call leaves. -/
def resultState {ε σ α : Type} : EStateM.Result ε σ α → σ
  | .ok _ s => s
  | .error _ s => s

theorem Output.write_grows (bytes : List UInt8) (o : Output) :
    o.written.toList <+: (resultState (Output.write bytes o)).written.toList := by
  fun_induction Output.write bytes o with
  | case1 o => exact List.prefix_rfl
  | case2 o b rest h =>
    show _ <+: (o.append (b :: rest)).written.toList
    rw [Output.written_append]
    exact List.prefix_append _ _
  | case3 o b rest h => exact List.prefix_rfl
  | case4 o b rest n h ih =>
    rw [Output.written_append] at ih
    exact (List.prefix_append _ _).trans ih

theorem Output.flush_written (o : Output) :
    (resultState (Output.flush o)).written = o.written := by
  unfold Output.flush
  dsimp only
  split <;> rfl

/-! ## Reading only uses up what is there -/

theorem unreadOf_putBack (left : List UInt8) (later : List Delivery) :
    unreadOf (Reading.putBack left later) =
      (left.map fun b => Delivery.bytes [b]) ++ unreadOf later := by
  cases left <;> rfl

/-- What a reading leaves is the end of what was there. -/
def Reading.Consumes {α : Type} (x : Reading α) : Prop :=
  ∀ ds, unreadOf (resultState (x ds)) <:+ unreadOf ds

namespace Reading

theorem consumes_pure {α : Type} (a : α) : Consumes (pure a : Reading α) :=
  fun _ => List.suffix_rfl

theorem consumes_throw {α : Type} (e : DeviceError) : Consumes (throw e : Reading α) :=
  fun _ => List.suffix_rfl

theorem consumes_bind {α β : Type} {x : Reading α} {f : α → Reading β} (hx : Consumes x)
    (hf : ∀ a, Consumes (f a)) : Consumes (x >>= f) := by
  intro ds
  have first := hx ds
  show unreadOf (resultState (EStateM.bind x f ds)) <:+ _
  unfold EStateM.bind
  cases hr : x ds with
  | ok a left =>
    rw [hr] at first
    exact (hf a left).trans first
  | error e left =>
    rw [hr] at first
    exact first

theorem consumes_byte : Consumes byte := by
  intro ds
  show unreadOf (resultState (nextByte ds)) <:+ _
  fun_induction nextByte ds with
  | case1 => exact List.suffix_rfl
  | case2 later ih => exact ih.trans (List.suffix_append [Delivery.interrupted] _)
  | case3 text later => exact List.suffix_append [Delivery.failure text] _
  | case4 later => exact List.suffix_append [Delivery.bytes []] _
  | case5 b left later =>
    -- One byte of the delivery is gone and the others are still single ones.
    show unreadOf (putBack left later) <:+ _
    rw [unreadOf_putBack]
    exact List.suffix_append [Delivery.bytes [b]] _

theorem consumes_bytes (n : Nat) : Consumes (bytes n) := by
  induction n with
  | zero => exact consumes_pure []
  | succ n ih =>
    unfold bytes
    refine consumes_bind consumes_byte (fun b => ?_)
    cases b with
    | none => exact consumes_throw _
    | some b => exact consumes_bind ih (fun rest => consumes_pure _)

theorem consumes_char : Consumes char := by
  unfold char
  refine consumes_bind consumes_byte (fun first => ?_)
  cases first with
  | none => exact consumes_pure none
  | some first =>
    dsimp only
    cases Utf8.width? first with
    | none => exact consumes_throw _
    | some width =>
      refine consumes_bind (consumes_bytes _) (fun rest => ?_)
      cases Utf8.decodeChar? (first :: rest) with
      | none => exact consumes_throw _
      | some c => exact consumes_pure _

end Reading

theorem Input.readChar_unread (i : Input) :
    (resultState (Input.readChar i)).unread <:+ i.unread := by
  have consumed := Reading.consumes_char i.deliveries
  obtain ⟨deliveries, flushes, failsFrom⟩ := i
  unfold Input.readChar
  dsimp only at consumed ⊢
  cases hr : Reading.char deliveries with
  | ok c left => rw [hr] at consumed; exact consumed
  | error e left => rw [hr] at consumed; exact consumed

theorem Input.flush_unread (i : Input) : (resultState (Input.flush i)).unread = i.unread := by
  unfold Input.flush
  dsimp only
  split <;> rfl

/-! ## Faults of values -/

/-- A fault that is found by looking at a value, and not at how many values there are, at
how deep quotations run inside each other or at a device. -/
def Fault.OfValue : Fault → Prop
  | .stackUnderflow _ | .recursionLimit _ | .io _ => False
  | _ => True

/-- A computation from values, which can fail with a fault of a value only. -/
def OfValues {α : Type} (e : Except Fault α) : Prop := ∀ fault, e = .error fault → fault.OfValue

section OfValues

theorem ofValues_ok {α : Type} (a : α) : OfValues (.ok a : Except Fault α) := by
  intro fault h
  cases h

theorem ofValues_toInteger (symbol : Char) (v : Value) : OfValues (v.toInteger symbol) := by
  intro fault h
  cases v <;> cases h <;> trivial

theorem ofValues_toBool (symbol : Char) (v : Value) : OfValues (v.toBool symbol) := by
  intro fault h
  cases v <;> cases h <;> trivial

theorem ofValues_toQuotation (symbol : Char) (v : Value) : OfValues (v.toQuotation symbol) := by
  intro fault h
  cases v <;> cases h <;> trivial

theorem ofValues_toName (symbol : Char) (v : Value) : OfValues (v.toName symbol) := by
  intro fault h
  cases v <;> cases h <;> trivial

theorem ofValues_orOverflow (symbol : Char) (n : Int) :
    OfValues (Integer.orOverflow symbol n) := by
  intro fault h
  unfold Integer.orOverflow at h
  split at h <;> cases h
  trivial

theorem ofValues_floorDiv (a b : Int64) : OfValues (Integer.floorDiv a b) := by
  intro fault h
  rw [Integer.floorDiv_eq] at h
  split at h
  · cases h
    trivial
  · exact ofValues_orOverflow _ _ fault h

theorem ofValues_toChar (code : Int64) : OfValues (Integer.toChar code) := by
  intro fault h
  unfold Integer.toChar at h
  split at h <;> cases h
  trivial

theorem ofValues_pick (s : Stack) (index : Int64) : OfValues (s.pick index) := by
  intro fault h
  unfold Stack.pick at h
  split at h <;> cases h
  trivial

theorem ofValues_load (e : Environment) (name : Letter) : OfValues (e.load name) := by
  intro fault h
  unfold Environment.load at h
  split at h <;> cases h
  trivial

end OfValues

/-! ## Habits of actions -/

/-- A relation that leads from a context to the one that a small action leaves. -/
structure Habit where
  rel : Context → Context → Prop
  refl : ∀ c, rel c c
  trans : ∀ {a b c}, rel a b → rel b c → rel a c
  limit : ∀ {c d}, rel c d → d.limit = c.limit
  stack : ∀ (c : Context) (s : Stack), rel c { c with stack := s }
  store : ∀ (c : Context) name v, rel c { c with environment := c.environment.store name v }
  write : ∀ c text, rel c (resultState (Action.write (Utf8.encode text) c))
  flushOutput : ∀ c, rel c (resultState (Action.flushOutput c))
  flushInput : ∀ c, rel c (resultState (Action.flushInput c))
  readChar : ∀ c, rel c (resultState (Action.readChar c))

namespace Habit

variable (H : Habit)

/-- The action keeps the habit, and does not raise the fault of the nesting limit. -/
def Keeps {α : Type} (x : Action α) : Prop :=
  ∀ c, H.rel c (resultState (x c)) ∧ ∀ k d, x c ≠ .error (.recursionLimit k) d

section Actions
variable {H}

theorem keeps_pure {α : Type} (a : α) : H.Keeps (pure a : Action α) :=
  fun c => ⟨H.refl c, fun _ _ h => by cases h⟩

theorem keeps_bind {α β : Type} {x : Action α} {f : α → Action β} (hx : H.Keeps x)
    (hf : ∀ a, H.Keeps (f a)) : H.Keeps (x >>= f) := by
  intro c
  have first := hx c
  show H.rel c (resultState (EStateM.bind x f c)) ∧ ∀ k d, EStateM.bind x f c ≠ _
  unfold EStateM.bind
  cases hr : x c with
  | ok a d =>
    rw [hr] at first
    exact ⟨H.trans first.1 (hf a d).1, (hf a d).2⟩
  | error fault d =>
    rw [hr] at first
    refine ⟨first.1, fun k e h => ?_⟩
    cases h
    exact first.2 k d rfl

theorem keeps_lift {α : Type} {e : Except Fault α} (h : OfValues e) :
    H.Keeps (Action.lift e) := by
  intro c
  cases e with
  | ok a => exact keeps_pure a c
  | error fault =>
    refine ⟨H.refl c, fun k d eq => ?_⟩
    cases eq
    exact h _ rfl

/-- An action that cannot fail keeps the habit if the context it leaves does. -/
theorem keeps_of_ok {α : Type} {x : Action α} (value : Context → α) (next : Context → Context)
    (ok : ∀ c, x c = .ok (value c) (next c)) (h : ∀ c, H.rel c (next c)) : H.Keeps x := by
  intro c
  rw [ok]
  exact ⟨h c, fun k d eq => by cases eq⟩

theorem keeps_push (v : Value) : H.Keeps (Action.push v) :=
  keeps_of_ok _ _ (fun _ => rfl) (fun c => H.stack c _)

theorem keeps_get : H.Keeps get := keeps_of_ok _ _ (fun _ => rfl) H.refl

theorem keeps_store (name : Letter) (v : Value) :
    H.Keeps (modify fun c => { c with environment := c.environment.store name v }) :=
  keeps_of_ok _ _ (fun _ => rfl) (fun c => H.store c name v)

theorem keeps_pop (symbol : Char) : H.Keeps (Action.pop symbol) := by
  intro c
  unfold Action.pop
  cases hs : c.stack with
  | nil => exact ⟨H.refl c, fun k d h => by cases h⟩
  | cons v rest => exact ⟨H.stack c rest, fun k d h => by cases h⟩

theorem keeps_peek (symbol : Char) : H.Keeps (Action.peek symbol) := by
  intro c
  unfold Action.peek
  cases c.stack <;> exact ⟨H.refl c, fun k d h => by cases h⟩

theorem keeps_onOutput {act : Output → EStateM.Result DeviceError Output Unit}
    (h : ∀ c, H.rel c (resultState (Action.onOutput act c))) : H.Keeps (Action.onOutput act) := by
  intro c
  refine ⟨h c, fun k d => ?_⟩
  unfold Action.onOutput
  dsimp only
  cases act c.output <;> exact fun eq => by cases eq

theorem keeps_write (text : List Char) : H.Keeps (Action.write (Utf8.encode text)) :=
  keeps_onOutput (fun c => H.write c text)

theorem keeps_flushOutput : H.Keeps Action.flushOutput := keeps_onOutput H.flushOutput

theorem keeps_flushInput : H.Keeps Action.flushInput := by
  intro c
  refine ⟨H.flushInput c, fun k d => ?_⟩
  unfold Action.flushInput
  cases c.input.flush <;> exact fun eq => by cases eq

theorem keeps_readChar : H.Keeps Action.readChar := by
  intro c
  refine ⟨H.readChar c, fun k d => ?_⟩
  unfold Action.readChar
  cases c.input.readChar <;> exact fun eq => by cases eq

end Actions

/-! ## Habits of instructions -/

section Instructions
variable {H}

theorem keeps_popInteger (symbol : Char) : H.Keeps (Action.popInteger symbol) :=
  keeps_bind (keeps_pop symbol) (fun v => keeps_lift (ofValues_toInteger symbol v))

theorem keeps_popBool (symbol : Char) : H.Keeps (Action.popBool symbol) :=
  keeps_bind (keeps_pop symbol) (fun v => keeps_lift (ofValues_toBool symbol v))

theorem keeps_popQuotation (symbol : Char) : H.Keeps (Action.popQuotation symbol) :=
  keeps_bind (keeps_pop symbol) (fun v => keeps_lift (ofValues_toQuotation symbol v))

theorem keeps_popName (symbol : Char) : H.Keeps (Action.popName symbol) :=
  keeps_bind (keeps_pop symbol) (fun v => keeps_lift (ofValues_toName symbol v))

theorem keeps_binary (symbol : Char) {f : Int64 → Int64 → Except Fault Int64}
    (h : ∀ a b, OfValues (f a b)) : H.Keeps (Action.binary symbol f) := by
  refine keeps_bind (keeps_popInteger symbol) (fun b => ?_)
  refine keeps_bind (keeps_popInteger symbol) (fun a => ?_)
  exact keeps_bind (keeps_lift (h a b)) (fun n => keeps_push _)

theorem primitive (p : Primitive) : H.Keeps p.perform := by
  unfold Primitive.perform
  cases p with
  | duplicate => exact keeps_bind (keeps_peek _) (fun v => keeps_push v)
  | drop => exact keeps_bind (keeps_pop _) (fun _ => keeps_pure _)
  | swap =>
    refine keeps_bind (keeps_pop _) (fun b => ?_)
    refine keeps_bind (keeps_pop _) (fun a => ?_)
    exact keeps_bind (keeps_push b) (fun _ => keeps_push a)
  | rotate =>
    refine keeps_bind (keeps_pop _) (fun c => ?_)
    refine keeps_bind (keeps_pop _) (fun b => ?_)
    refine keeps_bind (keeps_pop _) (fun a => ?_)
    refine keeps_bind (keeps_push b) (fun _ => ?_)
    exact keeps_bind (keeps_push c) (fun _ => keeps_push a)
  | pick =>
    refine keeps_bind (keeps_popInteger _) (fun index => ?_)
    refine keeps_bind keeps_get (fun c => ?_)
    exact keeps_bind (keeps_lift (ofValues_pick _ index)) (fun v => keeps_push v)
  | add | subtract | multiply => exact keeps_binary _ (fun a b => ofValues_orOverflow _ _)
  | divide => exact keeps_binary _ ofValues_floorDiv
  | bitAnd | bitOr | greater | equal => exact keeps_binary _ (fun a b => ofValues_ok _)
  | negate =>
    refine keeps_bind (keeps_popInteger _) (fun a => ?_)
    exact keeps_bind (keeps_lift (ofValues_orOverflow _ _)) (fun n => keeps_push _)
  | not => exact keeps_bind (keeps_popInteger _) (fun a => keeps_push _)
  | readChar =>
    refine keeps_bind keeps_flushOutput (fun _ => ?_)
    refine keeps_bind keeps_readChar (fun char => ?_)
    cases char <;> exact keeps_push _
  | writeChar =>
    refine keeps_bind (keeps_popInteger _) (fun code => ?_)
    refine keeps_bind (keeps_lift (ofValues_toChar code)) (fun c => ?_)
    rw [← Utf8.encode_singleton]
    exact keeps_write [c]
  | writeDecimal => exact keeps_bind (keeps_popInteger _) (fun n => keeps_write _)
  | flush => exact keeps_bind keeps_flushInput (fun _ => keeps_flushOutput)

theorem op (o : Op) : H.Keeps o.perform := by
  match o with
  | .integer value => exact keeps_bind (keeps_push _) (fun _ => keeps_pure _)
  | .character code => exact keeps_bind (keeps_push _) (fun _ => keeps_pure _)
  | .letter name => exact keeps_bind (keeps_push _) (fun _ => keeps_pure _)
  | .primitive p => exact keeps_bind (primitive p) (fun _ => keeps_pure _)
  | .print text => exact keeps_bind (keeps_write _) (fun _ => keeps_pure _)
  | .execute false => exact keeps_bind (keeps_popQuotation _) (fun _ => keeps_pure _)
  | .execute true =>
    refine keeps_bind (keeps_popQuotation _) (fun body => ?_)
    refine keeps_bind (keeps_popBool _) (fun condition => ?_)
    cases condition <;> exact keeps_pure _
  | .loop =>
    refine keeps_bind (keeps_pop _) (fun body => ?_)
    refine keeps_bind (keeps_pop _) (fun condition => ?_)
    refine keeps_bind (keeps_lift (ofValues_toQuotation _ body)) (fun _ => ?_)
    exact keeps_bind (keeps_lift (ofValues_toQuotation _ condition)) (fun _ => keeps_pure _)
  | .store =>
    refine keeps_bind (keeps_popName _) (fun name => ?_)
    refine keeps_bind (keeps_pop _) (fun v => ?_)
    exact keeps_bind (keeps_store name v) (fun _ => keeps_pure _)
  | .load =>
    refine keeps_bind (keeps_popName _) (fun name => ?_)
    refine keeps_bind keeps_get (fun c => ?_)
    refine keeps_bind (keeps_lift (ofValues_load _ name)) (fun v => ?_)
    exact keeps_bind (keeps_push v) (fun _ => keeps_pure _)

theorem instruction (i : Instruction) : H.Keeps i.perform := by
  cases i with
  | op line o => exact op o
  | quotation line body => exact keeps_bind (keeps_push _) (fun _ => keeps_pure _)

end Instructions

end Habit

/-! ## Habits of steps and runs -/

/-- The context that a step leads to. -/
def Status.context : Status → Context
  | .running m => m.context
  | .ended o => o.context

namespace Habit

/-- What a machine in a context may come to: the habit is kept, and if the nesting limit
stops it, the limit of the context is named. -/
def Reaches (H : Habit) (c : Context) (s : Status) : Prop :=
  H.rel c s.context ∧ ∀ line k d, s = .ended ⟨.error ⟨line, .recursionLimit k⟩, d⟩ → k = c.limit

section Machines
variable {H : Habit} (depth : ∀ (c : Context) k, H.rel c { c with depth := k })
include depth

theorem reaches_fail {c d : Context} (h : H.rel c d) (line : Nat) {fault : Fault}
    (frames : List Frame) (named : ∀ k, fault = .recursionLimit k → k = c.limit) :
    H.Reaches c (Machine.fail line fault d frames) := by
  unfold Machine.fail
  rw [d.unwind_eq]
  refine ⟨H.trans h (depth d _), fun line k e eq => ?_⟩
  cases eq
  exact named k rfl

theorem reaches_enter {c d : Context} (h : H.rel c d) (line : Nat) (body : Code) (frame : Frame)
    (frames : List Frame) : H.Reaches c (Machine.enter line body frame d frames) := by
  unfold Machine.enter Action.enter
  by_cases full : d.limit ≤ d.depth
  · rw [if_pos full]
    refine reaches_fail depth h line frames (fun k eq => ?_)
    cases eq
    exact H.limit h
  · rw [if_neg full]
    exact ⟨H.trans h (depth d _), fun line k e eq => by cases eq⟩

theorem reaches_test {c d : Context} (h : H.rel c d) (loop : Loop) (rest : Code)
    (frames : List Frame) : H.Reaches c (Machine.test loop rest d frames) := by
  obtain ⟨kept, unlimited⟩ := keeps_popBool (H := H) '#' d
  unfold Machine.test
  cases hr : Action.popBool '#' d with
  | ok more e =>
    rw [hr] at kept
    cases more with
    | true => exact reaches_enter depth (H.trans h kept) _ _ _ frames
    | false => exact ⟨H.trans h kept, fun line k e eq => by cases eq⟩
  | error fault e =>
    rw [hr] at kept
    refine reaches_fail depth (H.trans h kept) _ frames (fun k eq => ?_)
    rw [eq] at hr
    exact absurd hr (unlimited k e)

theorem step (m : Machine) : H.Reaches m.context m.step := by
  obtain ⟨c, code, frames⟩ := m
  cases code with
  | nil =>
    match frames with
    | [] => exact ⟨H.refl c, fun line k e eq => by cases eq⟩
    | .resume rest :: frames => exact ⟨depth c _, fun line k e eq => by cases eq⟩
    | .test loop rest :: frames => exact reaches_test depth (depth c _) loop rest frames
    | .again loop rest :: frames => exact reaches_enter depth (depth c _) _ _ _ frames
  | cons i rest =>
    obtain ⟨kept, unlimited⟩ := instruction (H := H) i c
    show H.Reaches c (Machine.advance i rest c frames)
    unfold Machine.advance
    cases hr : i.perform c with
    | ok effect d =>
      rw [hr] at kept
      cases effect with
      | proceed => exact ⟨kept, fun line k e eq => by cases eq⟩
      | call body => exact reaches_enter depth kept _ _ _ frames
      | loop condition body => exact reaches_enter depth kept _ _ _ frames
    | error fault d =>
      rw [hr] at kept
      refine reaches_fail depth kept _ frames (fun k eq => ?_)
      rw [eq] at hr
      exact absurd hr (unlimited k d)

/-- A run keeps the habit, and names its own limit if that stops it. -/
theorem run {n : Nat} {m : Machine} {o : Outcome} (h : m.run n = some o) :
    H.Reaches m.context (.ended o) := by
  induction n generalizing m with
  | zero => cases h
  | succ n ih =>
    have stepped := step depth m
    unfold Machine.run at h
    cases hs : m.step with
    | running next =>
      rw [hs] at h stepped
      obtain ⟨kept, named⟩ := ih h
      -- The rest of the run names the limit of the next context, which is the same limit.
      refine ⟨H.trans stepped.1 kept, fun line k d eq => ?_⟩
      rw [named line k d eq]
      exact H.limit stepped.1
    | ended outcome =>
      rw [hs] at h stepped
      cases h
      exact stepped

end Machines

end Habit

/-! ## Later contexts -/

theorem Context.Later.of_write {c : Context}
    {act : Output → EStateM.Result DeviceError Output Unit}
    (h : c.output.written.toList <+: (resultState (act c.output)).written.toList) :
    c.Later (resultState (Action.onOutput act c)) := by
  unfold Action.onOutput
  dsimp only
  cases hr : act c.output with
  | ok u o => rw [hr] at h; exact ⟨h, List.suffix_rfl, rfl⟩
  | error e o => rw [hr] at h; exact ⟨h, List.suffix_rfl, rfl⟩

theorem Context.later_flushInput (c : Context) : c.Later (resultState (Action.flushInput c)) := by
  have same := Input.flush_unread c.input
  unfold Action.flushInput
  cases hr : c.input.flush with
  | ok u i => rw [hr] at same; exact ⟨List.prefix_rfl, same ▸ List.suffix_rfl, rfl⟩
  | error e i => rw [hr] at same; exact ⟨List.prefix_rfl, same ▸ List.suffix_rfl, rfl⟩

theorem Context.later_readChar (c : Context) : c.Later (resultState (Action.readChar c)) := by
  have left := Input.readChar_unread c.input
  unfold Action.readChar
  cases hr : c.input.readChar with
  | ok char i => rw [hr] at left; exact ⟨List.prefix_rfl, left, rfl⟩
  | error e i => rw [hr] at left; exact ⟨List.prefix_rfl, left, rfl⟩

/-- Every action leads to a later context. -/
def laterHabit : Habit where
  rel := Context.Later
  refl := Context.Later.refl
  trans := Context.Later.trans
  limit := Context.Later.limit
  stack _ _ := ⟨List.prefix_rfl, List.suffix_rfl, rfl⟩
  store _ _ _ := ⟨List.prefix_rfl, List.suffix_rfl, rfl⟩
  write c text := .of_write (Output.write_grows (Utf8.encode text) c.output)
  flushOutput c := .of_write (Output.flush_written c.output ▸ List.prefix_rfl)
  flushInput := Context.later_flushInput
  readChar := Context.later_readChar

theorem Context.later_depth (c : Context) (k : Nat) : c.Later { c with depth := k } :=
  ⟨List.prefix_rfl, List.suffix_rfl, rfl⟩

namespace Machine

/-- The context that a run leaves is later than the one it started in. -/
theorem later_of_run {n : Nat} {m : Machine} {o : Outcome} (h : m.run n = some o) :
    m.context.Later o.context :=
  (laterHabit.run Context.later_depth h).1

/-- A run that the nesting limit stops names the limit of its context. -/
theorem limit_of_run {n line k : Nat} {m : Machine} {o : Outcome} (h : m.run n = some o)
    (stopped : o.result = .error ⟨line, .recursionLimit k⟩) : k = m.context.limit := by
  obtain ⟨result, c⟩ := o
  subst stopped
  exact (laterHabit.run Context.later_depth h).2 line k c rfl

end Machine

/-! ## Contexts at the same depth -/

/-- The same limit and the same depth under it. -/
structure Context.SameDepth (c d : Context) : Prop where
  limit : d.limit = c.limit
  depth : d.depth = c.depth

theorem Context.SameDepth.onOutput (act : Output → EStateM.Result DeviceError Output Unit)
    (c : Context) : c.SameDepth (resultState (Action.onOutput act c)) := by
  unfold Action.onOutput
  dsimp only
  cases act c.output <;> exact ⟨rfl, rfl⟩

/-- No instruction changes the depth; only the machine enters and leaves quotations. -/
def depthHabit : Habit where
  rel := Context.SameDepth
  refl _ := ⟨rfl, rfl⟩
  trans h h' := ⟨h'.limit.trans h.limit, h'.depth.trans h.depth⟩
  limit := Context.SameDepth.limit
  stack _ _ := ⟨rfl, rfl⟩
  store _ _ _ := ⟨rfl, rfl⟩
  write c _ := .onOutput _ c
  flushOutput c := .onOutput _ c
  flushInput c := by
    unfold Action.flushInput
    cases c.input.flush <;> exact ⟨rfl, rfl⟩
  readChar c := by
    unfold Action.readChar
    cases c.input.readChar <;> exact ⟨rfl, rfl⟩

end FalseLang
