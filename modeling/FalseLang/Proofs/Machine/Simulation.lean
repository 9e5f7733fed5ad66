import FalseLang.Proofs.Machine.Progress

/-
  Simulation: two runs that stay in step.

  A `Comparison` says which contexts, quotations, names and lines of two runs
  correspond, and where the first run is excused: it may stop with some faults
  although the second goes on. It is `Lawful` if the small actions on a context
  respect it. Then every instruction does (`Lawful.perform`), every step of the
  machine does (`Lawful.step`), and so do whole runs: as long as the first run is
  not excused both take the same steps and end alike (`Lawful.run`), and the
  first never runs longer than the second (`Lawful.run_back`).

  Each result about two runs is one comparison and a proof that it is lawful. The
  instructions are gone through here and nowhere else.
-/

namespace FalseLang

/-- A way to compare two runs. -/
structure Comparison where
  context : Context → Context → Prop
  /-- The bodies of quotations that are on the stack, in variables or about to run. -/
  body : Code → Code → Prop
  /-- The names that the runs may use, the same in both. -/
  name : Letter → Prop
  line : Nat → Nat → Prop
  /-- The first run may stop with this fault in the first context while the second has
  come to the second one. -/
  excused : Fault → Context → Context → Prop

/-- The results of two actions correspond: the same kind of result in contexts that
correspond, or a fault that is excused. -/
inductive Corresponds {α β : Type} (R : Context → Context → Prop)
    (E : Fault → Context → Context → Prop) (V : α → β → Prop) :
    EStateM.Result Fault Context α → EStateM.Result Fault Context β → Prop where
  | ok {a b c d} (value : V a b) (context : R c d) : Corresponds R E V (.ok a c) (.ok b d)
  | error {c d} (fault : Fault) (context : R c d) :
    Corresponds R E V (.error fault c) (.error fault d)
  | excused {fault c r} (excuse : E fault c (resultState r)) :
    Corresponds R E V (.error fault c) r

/-- Look something up in the context. -/
def Action.look {α : Type} (f : Context → Except Fault α) : Action α := fun c => lift (f c) c

theorem Action.peek_eq_look (symbol : Char) :
    Action.peek symbol = Action.look fun c => c.stack.peek symbol := by
  funext c
  unfold Action.peek Action.look
  dsimp only
  cases c.stack.peek symbol <;> rfl

namespace Comparison

variable (S : Comparison)

/-- Values correspond if they are equal, with bodies that correspond for equal ones. -/
inductive Values : Value → Value → Prop where
  | integer (n : Int64) : Values (.integer n) (.integer n)
  | quotation {a b : Code} (h : S.body a b) : Values (.quotation a) (.quotation b)
  | name {l : Letter} (h : S.name l) : Values (.name l) (.name l)

inductive Effects : Effect → Effect → Prop where
  | proceed : Effects .proceed .proceed
  | call {a b : Code} (h : S.body a b) : Effects (.call a) (.call b)
  | loop {a b p q : Code} (h : S.body a b) (h' : S.body p q) : Effects (.loop a p) (.loop b q)

inductive Matches : Instruction → Instruction → Prop where
  | op {k l : Nat} {o p : Op} (line : S.line k l) (perform : o.perform = p.perform)
    (names : ∀ name, o = .letter name → S.name name) : Matches (.op k o) (.op l p)
  | quotation {k l : Nat} {a b : Code} (line : S.line k l) (h : S.body a b) :
    Matches (.quotation k a) (.quotation l b)

/-- Code corresponds instruction by instruction. -/
inductive Codes : Code → Code → Prop where
  | nil : Codes [] []
  | cons {i j : Instruction} {a b : Code} (first : S.Matches i j) (rest : Codes a b) :
    Codes (i :: a) (j :: b)

/-- Two actions correspond; the first may fail only with a fault that is always excused. -/
def Acts {α β : Type} (V : α → β → Prop) (x : Action α) (y : Action β) : Prop :=
  ∀ ⦃c d⦄, S.context c d →
    Corresponds S.context (fun fault _ _ => ∀ c d, S.excused fault c d) V (x c) (y d)

/-- The small actions respect the comparison, and an excuse stays one. -/
structure Lawful : Prop where
  push : ∀ {v w c d}, S.Values v w → S.context c d →
    S.context { c with stack := v :: c.stack } { d with stack := w :: d.stack }
  pop : ∀ symbol, S.Acts S.Values (Action.pop symbol) (Action.pop symbol)
  peek : ∀ symbol, S.Acts S.Values (Action.look fun c => c.stack.peek symbol)
    (Action.look fun c => c.stack.peek symbol)
  pick : ∀ index, S.Acts S.Values (Action.look fun c => c.stack.pick index)
    (Action.look fun c => c.stack.pick index)
  load : ∀ name, S.name name → S.Acts S.Values (Action.look fun c => c.environment.load name)
    (Action.look fun c => c.environment.load name)
  store : ∀ {name v w c d}, S.name name → S.Values v w → S.context c d →
    S.context { c with environment := c.environment.store name v }
      { d with environment := d.environment.store name w }
  write : ∀ text, S.Acts Eq (Action.write (Utf8.encode text)) (Action.write (Utf8.encode text))
  flushOutput : S.Acts Eq Action.flushOutput Action.flushOutput
  flushInput : S.Acts Eq Action.flushInput Action.flushInput
  readChar : S.Acts Eq Action.readChar Action.readChar
  /-- Entering a quotation is where a run may be excused for reasons of its context. -/
  enter : ∀ {c d}, S.context c d →
    Corresponds S.context S.excused Eq (Action.enter c) (Action.enter d)
  unwind : ∀ {c d} (k : Nat), S.context c d →
    S.context { c with depth := c.depth - k } { d with depth := d.depth - k }
  body : ∀ {a b}, S.body a b → S.Codes a b
  later : ∀ {fault c d d'}, S.excused fault c d → d.Later d' → S.excused fault c d'
  excused_unwind : ∀ {fault c d} (k : Nat), S.excused fault c d →
    S.excused fault { c with depth := k } d

variable {S}

/-! ## Actions that correspond -/

namespace Acts

variable {α β γ δ : Type} {V : α → β → Prop} {W : γ → δ → Prop}

theorem pure {a : α} {b : β} (h : V a b) : S.Acts V (Pure.pure a) (Pure.pure b) :=
  fun _ _ context => .ok h context

theorem bind {x : Action α} {y : Action β} {f : α → Action γ} {g : β → Action δ}
    (hx : S.Acts V x y) (hf : ∀ a b, V a b → S.Acts W (f a) (g b)) :
    S.Acts W (x >>= f) (y >>= g) := by
  intro c d context
  show Corresponds _ _ W (EStateM.bind x f c) (EStateM.bind y g d)
  have first := hx context
  unfold EStateM.bind
  revert first
  generalize x c = r, y d = r'
  intro first
  cases first with
  | ok value after => exact hf _ _ value after
  | error fault after => exact .error fault after
  | excused excuse => exact .excused excuse

/-- Actions with equal results, followed by actions that correspond for each result. -/
theorem bind_eq {x y : Action α} {f : α → Action γ} {g : α → Action δ} (hx : S.Acts Eq x y)
    (hf : ∀ a, S.Acts W (f a) (g a)) : S.Acts W (x >>= f) (y >>= g) := by
  refine bind hx (fun a b same => ?_)
  rw [same]
  exact hf b

theorem lift (e : Except Fault α) : S.Acts Eq (Action.lift e) (Action.lift e) := by
  intro c d context
  cases e with
  | ok a => exact .ok rfl context
  | error fault => exact .error fault context

theorem lift_eq {e e' : Except Fault α} (h : e = e') :
    S.Acts Eq (Action.lift e) (Action.lift e') := by
  rw [h]
  exact lift e'

end Acts

/-! ## Devices that are alike -/

/-- Contexts that correspond have the same devices, and both may be changed alike. -/
structure SameDevices (R : Context → Context → Prop) : Prop where
  output : ∀ {c d}, R c d → d.output = c.output
  input : ∀ {c d}, R c d → d.input = c.input
  withOutput : ∀ {c d} (o : Output), R c d → R { c with output := o } { d with output := o }
  withInput : ∀ {c d} (i : Input), R c d → R { c with input := i } { d with input := i }

namespace SameDevices

variable (h : SameDevices S.context)
include h

theorem acts_onOutput (act : Output → EStateM.Result DeviceError Output Unit) :
    S.Acts Eq (Action.onOutput act) (Action.onOutput act) := by
  intro c d context
  unfold Action.onOutput
  dsimp only
  rw [h.output context]
  cases act c.output with
  | ok u o => exact .ok rfl (h.withOutput o context)
  | error e o => exact .error _ (h.withOutput o context)

theorem acts_flushInput : S.Acts Eq Action.flushInput Action.flushInput := by
  intro c d context
  unfold Action.flushInput
  rw [h.input context]
  cases c.input.flush with
  | ok u i => exact .ok rfl (h.withInput i context)
  | error e i => exact .error _ (h.withInput i context)

theorem acts_readChar : S.Acts Eq Action.readChar Action.readChar := by
  intro c d context
  unfold Action.readChar
  rw [h.input context]
  cases c.input.readChar with
  | ok char i => exact .ok rfl (h.withInput i context)
  | error e i => exact .ok rfl (h.withInput i context)

end SameDevices

namespace Values

theorem toInteger_eq {v w : Value} (h : S.Values v w) (symbol : Char) :
    v.toInteger symbol = w.toInteger symbol := by
  cases h <;> rfl

theorem toBool_eq {v w : Value} (h : S.Values v w) (symbol : Char) :
    v.toBool symbol = w.toBool symbol := by
  cases h <;> rfl

theorem toQuotation {v w : Value} (h : S.Values v w) (symbol : Char) :
    S.Acts S.body (Action.lift (v.toQuotation symbol)) (Action.lift (w.toQuotation symbol)) := by
  intro c d context
  cases h with
  | integer n => exact .error _ context
  | quotation body => exact .ok body context
  | name name => exact .error _ context

theorem toName {v w : Value} (h : S.Values v w) (symbol : Char) :
    S.Acts (fun a b => a = b ∧ S.name a) (Action.lift (v.toName symbol))
      (Action.lift (w.toName symbol)) := by
  intro c d context
  cases h with
  | integer n => exact .error _ context
  | quotation body => exact .error _ context
  | name name => exact .ok ⟨rfl, name⟩ context

end Values

namespace Lawful

section Instructions
variable (hS : S.Lawful)
include hS

theorem acts_push {v w : Value} (h : S.Values v w) :
    S.Acts Eq (Action.push v) (Action.push w) :=
  fun _ _ context => .ok rfl (hS.push h context)

theorem acts_pushInteger (n : Int64) :
    S.Acts Eq (Action.pushInteger n) (Action.pushInteger n) :=
  hS.acts_push (.integer n)

theorem acts_peek (symbol : Char) :
    S.Acts S.Values (Action.peek symbol) (Action.peek symbol) := by
  rw [Action.peek_eq_look]
  exact hS.peek symbol

theorem popInteger (symbol : Char) :
    S.Acts Eq (Action.popInteger symbol) (Action.popInteger symbol) :=
  Acts.bind (hS.pop symbol) (fun _ _ h => Acts.lift_eq (h.toInteger_eq symbol))

theorem popBool (symbol : Char) :
    S.Acts Eq (Action.popBool symbol) (Action.popBool symbol) :=
  Acts.bind (hS.pop symbol) (fun _ _ h => Acts.lift_eq (h.toBool_eq symbol))

theorem popQuotation (symbol : Char) :
    S.Acts S.body (Action.popQuotation symbol) (Action.popQuotation symbol) :=
  Acts.bind (hS.pop symbol) (fun _ _ h => h.toQuotation symbol)

theorem popName (symbol : Char) :
    S.Acts (fun a b => a = b ∧ S.name a) (Action.popName symbol) (Action.popName symbol) :=
  Acts.bind (hS.pop symbol) (fun _ _ h => h.toName symbol)

theorem binary (symbol : Char) (f : Int64 → Int64 → Except Fault Int64) :
    S.Acts Eq (Action.binary symbol f) (Action.binary symbol f) := by
  refine Acts.bind_eq (hS.popInteger symbol) (fun b => ?_)
  refine Acts.bind_eq (hS.popInteger symbol) (fun a => ?_)
  exact Acts.bind_eq (Acts.lift (f a b)) (fun n => hS.acts_pushInteger n)

theorem primitive (p : Primitive) : S.Acts Eq p.perform p.perform := by
  unfold Primitive.perform
  cases p with
  | duplicate => exact Acts.bind (hS.acts_peek _) (fun v w h => hS.acts_push h)
  | drop => exact Acts.bind (hS.pop _) (fun _ _ _ => Acts.pure rfl)
  | swap =>
    refine Acts.bind (hS.pop _) (fun b b' hb => ?_)
    refine Acts.bind (hS.pop _) (fun a a' ha => ?_)
    exact Acts.bind_eq (hS.acts_push hb) (fun _ => hS.acts_push ha)
  | rotate =>
    refine Acts.bind (hS.pop _) (fun c c' hc => ?_)
    refine Acts.bind (hS.pop _) (fun b b' hb => ?_)
    refine Acts.bind (hS.pop _) (fun a a' ha => ?_)
    refine Acts.bind_eq (hS.acts_push hb) (fun _ => ?_)
    exact Acts.bind_eq (hS.acts_push hc) (fun _ => hS.acts_push ha)
  | pick =>
    refine Acts.bind_eq (hS.popInteger _) (fun index => ?_)
    -- To get the context and then to pick from its stack is one look-up.
    exact Acts.bind (x := Action.look _) (y := Action.look _) (hS.pick index)
      (fun v w h => hS.acts_push h)
  | add | subtract | multiply | divide | bitAnd | bitOr | greater | equal =>
    exact hS.binary _ _
  | negate =>
    refine Acts.bind_eq (hS.popInteger _) (fun a => ?_)
    exact Acts.bind_eq (Acts.lift _) (fun n => hS.acts_pushInteger n)
  | not => exact Acts.bind_eq (hS.popInteger _) (fun a => hS.acts_pushInteger _)
  | readChar =>
    refine Acts.bind_eq hS.flushOutput (fun _ => ?_)
    refine Acts.bind_eq hS.readChar (fun char => ?_)
    cases char <;> exact hS.acts_pushInteger _
  | writeChar =>
    refine Acts.bind_eq (hS.popInteger _) (fun code => ?_)
    refine Acts.bind_eq (Acts.lift _) (fun c => ?_)
    rw [← Utf8.encode_singleton]
    exact hS.write [c]
  | writeDecimal => exact Acts.bind_eq (hS.popInteger _) (fun n => hS.write _)
  | flush => exact Acts.bind_eq hS.flushInput (fun _ => hS.flushOutput)

theorem op {o : Op} (names : ∀ name, o = .letter name → S.name name) :
    S.Acts S.Effects o.perform o.perform := by
  match o with
  | .integer value =>
    exact Acts.bind_eq (hS.acts_pushInteger value) (fun _ => Acts.pure .proceed)
  | .character code =>
    exact Acts.bind_eq (hS.acts_pushInteger code) (fun _ => Acts.pure .proceed)
  | .letter name =>
    exact Acts.bind_eq (hS.acts_push (.name (names name rfl))) (fun _ => Acts.pure .proceed)
  | .primitive p => exact Acts.bind_eq (hS.primitive p) (fun _ => Acts.pure .proceed)
  | .print text => exact Acts.bind_eq (hS.write text.toList) (fun _ => Acts.pure .proceed)
  | .execute false =>
    exact Acts.bind (hS.popQuotation '!') (fun a b h => Acts.pure (.call h))
  | .execute true =>
    refine Acts.bind (hS.popQuotation '?') (fun a b h => ?_)
    refine Acts.bind_eq (hS.popBool '?') (fun condition => ?_)
    cases condition with
    | true => exact Acts.pure (.call h)
    | false => exact Acts.pure .proceed
  | .loop =>
    -- Both values are taken before either is checked, so they are carried along here.
    refine Acts.bind (hS.pop '#') (fun v v' hv => ?_)
    refine Acts.bind (hS.pop '#') (fun w w' hw => ?_)
    refine Acts.bind (hv.toQuotation '#') (fun a b h => ?_)
    exact Acts.bind (hw.toQuotation '#') (fun p q h' => Acts.pure (.loop h' h))
  | .store =>
    refine Acts.bind (hS.popName ':') (fun name name' hn => ?_)
    obtain ⟨rfl, known⟩ := hn
    refine Acts.bind (hS.pop ':') (fun v w h => ?_)
    refine Acts.bind_eq (x := modify _) (y := modify _) (fun c d context => ?_)
      (fun _ => Acts.pure .proceed)
    exact .ok rfl (hS.store known h context)
  | .load =>
    refine Acts.bind (hS.popName ';') (fun name name' hn => ?_)
    obtain ⟨rfl, known⟩ := hn
    refine Acts.bind (x := Action.look _) (y := Action.look _) (hS.load name known)
      (fun v w h => ?_)
    exact Acts.bind_eq (hS.acts_push h) (fun _ => Acts.pure .proceed)

/-- Instructions that match do what corresponds. -/
theorem perform {i j : Instruction} (h : S.Matches i j) :
    S.Acts S.Effects i.perform j.perform := by
  cases h with
  | op line same names =>
    show S.Acts S.Effects (Op.perform _) (Op.perform _)
    rw [← same]
    exact hS.op names
  | quotation line body =>
    exact Acts.bind_eq (hS.acts_push (.quotation body)) (fun _ => Acts.pure .proceed)

end Instructions

end Lawful

/-! ## Machines that correspond -/

variable (S)

def Loops (l k : Loop) : Prop :=
  S.line l.line k.line ∧ S.body l.condition k.condition ∧ S.body l.body k.body

inductive Frames : List Frame → List Frame → Prop where
  | nil : Frames [] []
  | resume {a b : Code} {fs gs : List Frame} (code : S.Codes a b) (outer : Frames fs gs) :
    Frames (.resume a :: fs) (.resume b :: gs)
  | test {l k : Loop} {a b : Code} {fs gs : List Frame} (loop : S.Loops l k)
    (code : S.Codes a b) (outer : Frames fs gs) : Frames (.test l a :: fs) (.test k b :: gs)
  | again {l k : Loop} {a b : Code} {fs gs : List Frame} (loop : S.Loops l k)
    (code : S.Codes a b) (outer : Frames fs gs) : Frames (.again l a :: fs) (.again k b :: gs)

structure Machines (m n : Machine) : Prop where
  context : S.context m.context n.context
  code : S.Codes m.code n.code
  frames : S.Frames m.frames n.frames

inductive Outcomes : Outcome → Outcome → Prop where
  | ok {c d : Context} (h : S.context c d) : Outcomes ⟨.ok (), c⟩ ⟨.ok (), d⟩
  | error {k l : Nat} (fault : Fault) {c d : Context} (line : S.line k l) (h : S.context c d) :
    Outcomes ⟨.error ⟨k, fault⟩, c⟩ ⟨.error ⟨l, fault⟩, d⟩

/-- A run that has ended is excused while the other has come to some context. -/
inductive Excused : Outcome → Context → Prop where
  | fault {line : Nat} {fault : Fault} {c d : Context} (h : S.excused fault c d) :
    Excused ⟨.error ⟨line, fault⟩, c⟩ d

inductive Statuses : Status → Status → Prop where
  | running {m n : Machine} (h : S.Machines m n) : Statuses (.running m) (.running n)
  | ended {o p : Outcome} (h : S.Outcomes o p) : Statuses (.ended o) (.ended p)
  | excused {o : Outcome} {s : Status} (h : S.Excused o s.context) : Statuses (.ended o) s

variable {S}

theorem Frames.length_eq {fs gs : List Frame} (h : S.Frames fs gs) : fs.length = gs.length := by
  induction h with
  | nil => rfl
  | resume code outer ih => rw [List.length_cons, List.length_cons, ih]
  | test loop code outer ih => rw [List.length_cons, List.length_cons, ih]
  | again loop code outer ih => rw [List.length_cons, List.length_cons, ih]

namespace Lawful

variable (hS : S.Lawful)
include hS

theorem fail {c d : Context} {k l : Nat} {fs gs : List Frame} (fault : Fault)
    (context : S.context c d) (line : S.line k l) (frames : S.Frames fs gs) :
    S.Statuses (Machine.fail k fault c fs) (Machine.fail l fault d gs) := by
  unfold Machine.fail
  rw [c.unwind_eq, d.unwind_eq, frames.length_eq]
  exact .ended (.error fault line (hS.unwind gs.length context))

/-- A run that fails with an excused fault is excused, whatever the other run does next. -/
theorem fail_excused {fault : Fault} {c d : Context} {k : Nat} {fs : List Frame} {s : Status}
    (excuse : S.excused fault c d) (later : d.Later s.context) :
    S.Statuses (Machine.fail k fault c fs) s := by
  unfold Machine.fail
  rw [c.unwind_eq]
  exact .excused (.fault (hS.excused_unwind _ (hS.later excuse later)))

theorem enter_body {c d : Context} {k l : Nat} {a b : Code} {φ ψ : Frame} {fs gs : List Frame}
    (context : S.context c d) (line : S.line k l) (body : S.body a b) (frames : S.Frames fs gs)
    (pushed : S.Frames (φ :: fs) (ψ :: gs)) :
    S.Statuses (Machine.enter k a φ c fs) (Machine.enter l b ψ d gs) := by
  have entered := hS.enter context
  unfold Machine.enter
  revert entered
  generalize Action.enter c = r, Action.enter d = r'
  intro entered
  cases entered with
  | ok value after => exact .running ⟨after, hS.body body, pushed⟩
  | error fault after => exact hS.fail fault after line frames
  | excused excuse =>
    -- The second run may enter the quotation or fail in its own way.
    apply hS.fail_excused excuse
    cases r' with
    | ok u d => exact Context.Later.refl d
    | error fault d =>
      show d.Later (d.unwind gs)
      rw [d.unwind_eq]
      exact Context.later_depth d _

theorem test {c d : Context} {l k : Loop} {a b : Code} {fs gs : List Frame}
    (context : S.context c d) (loop : S.Loops l k) (code : S.Codes a b)
    (frames : S.Frames fs gs) :
    S.Statuses (Machine.test l a c fs) (Machine.test k b d gs) := by
  have tested := hS.popBool '#' context
  unfold Machine.test
  revert tested
  generalize Action.popBool '#' c = r, Action.popBool '#' d = r'
  intro tested
  cases tested with
  | ok same after =>
    subst same
    rename_i more _ _
    cases more with
    | true => exact hS.enter_body after loop.1 loop.2.2 frames (.again loop code frames)
    | false => exact .running ⟨after, code, frames⟩
  | error fault after => exact hS.fail fault after loop.1 frames
  | excused excuse => exact hS.fail_excused (excuse _ _) (Context.Later.refl _)

/-- One step of two machines that correspond. -/
theorem step {m n : Machine} (h : S.Machines m n) : S.Statuses m.step n.step := by
  obtain ⟨c, code, fs⟩ := m
  obtain ⟨d, code', gs⟩ := n
  obtain ⟨context, codes, frames⟩ := h
  dsimp only at context codes frames
  cases codes with
  | nil =>
    have left : S.context c.leave d.leave := hS.unwind 1 context
    cases frames with
    | nil => exact .ended (.ok context)
    | resume code outer => exact .running ⟨left, code, outer⟩
    | test loop code outer => exact hS.test left loop code outer
    | again loop code outer =>
      exact hS.enter_body left loop.1 loop.2.1 outer (.test loop code outer)
  | cons first rest =>
    rename_i i j _ _
    have line : S.line i.line j.line := by cases first <;> assumption
    have performed := hS.perform first context
    show S.Statuses (Machine.advance i _ c fs) (Machine.advance j _ d gs)
    unfold Machine.advance
    revert performed
    generalize i.perform c = r, j.perform d = r'
    intro performed
    cases performed with
    | ok effect after =>
      cases effect with
      | proceed => exact .running ⟨after, rest, frames⟩
      | call body => exact hS.enter_body after line body frames (.resume rest frames)
      | loop condition body =>
        exact hS.enter_body after line condition frames
          (.test ⟨line, condition, body⟩ rest frames)
    | error fault after => exact hS.fail fault after line frames
    | excused excuse => exact hS.fail_excused (excuse _ _) (Context.Later.refl _)

/-- **Runs of machines that correspond.** If the first run ends, the second ends after as
many steps with an outcome that corresponds, or the first is excused at a context that the
second run passes. -/
theorem run {steps : Nat} {m n : Machine} {o : Outcome} (h : S.Machines m n)
    (ended : m.run steps = some o) :
    (∃ p, n.run steps = some p ∧ S.Outcomes o p) ∨
      ∃ d, S.Excused o d ∧ ∀ p, n.run steps = some p → d.Later p.context := by
  induction steps generalizing m n with
  | zero => cases ended
  | succ steps ih =>
    have stepped := hS.step h
    unfold Machine.run at ended ⊢
    revert stepped ended
    generalize m.step = s, n.step = s'
    intro stepped ended
    cases stepped with
    | running next => exact ih next ended
    | ended outcome =>
      cases ended
      exact Or.inl ⟨_, rfl, outcome⟩
    | excused excuse =>
      -- From here on only the second run goes on, and what it comes to is later.
      cases ended
      refine Or.inr ⟨s'.context, excuse, ?_⟩
      intro p finished
      cases s' with
      | running next => exact Machine.later_of_run finished
      | ended outcome =>
        cases finished
        exact Context.Later.refl _

/-- The first run ends no later than the second. -/
theorem run_back {steps : Nat} {m n : Machine} {p : Outcome} (h : S.Machines m n)
    (ended : n.run steps = some p) : ∃ o, m.run steps = some o := by
  induction steps generalizing m n with
  | zero => cases ended
  | succ steps ih =>
    have stepped := hS.step h
    unfold Machine.run at ended ⊢
    revert stepped ended
    generalize m.step = s, n.step = s'
    intro stepped ended
    cases stepped with
    | running next => exact ih next ended
    | ended outcome => exact ⟨_, rfl⟩
    | excused excuse => exact ⟨_, rfl⟩

end Lawful

/-! ## Two runs of the same code -/

/-- The comparison of runs of the same code, with the same values and lines. -/
def sameCode (context : Context → Context → Prop) (excused : Fault → Context → Context → Prop) :
    Comparison where
  context := context
  body := Eq
  name := fun _ => True
  line := Eq
  excused := excused

section SameCode
variable {R : Context → Context → Prop} {E : Fault → Context → Context → Prop}

theorem sameCode_values {v w : Value} : (sameCode R E).Values v w ↔ v = w := by
  constructor
  · intro h
    cases h with
    | integer n => rfl
    | quotation same => rw [show _ = _ from same]
    | name known => rfl
  · rintro rfl
    cases v with
    | integer n => exact .integer n
    | quotation body => exact .quotation rfl
    | name letter => exact .name trivial

theorem sameCode_codes (code : Code) : (sameCode R E).Codes code code := by
  induction code with
  | nil => exact .nil
  | cons i rest ih =>
    refine .cons ?_ ih
    cases i with
    | op line o => exact .op rfl rfl (fun _ _ => trivial)
    | quotation line body => exact .quotation rfl rfl

theorem sameCode_machines {c d : Context} (h : R c d) (code : Code) :
    (sameCode R E).Machines ⟨c, code, []⟩ ⟨d, code, []⟩ :=
  ⟨h, sameCode_codes code, .nil⟩

/-- Outcomes of the same code have the same result. -/
theorem sameCode_outcomes {o p : Outcome} (h : (sameCode R E).Outcomes o p) :
    p.result = o.result ∧ R o.context p.context := by
  cases h with
  | ok context => exact ⟨rfl, context⟩
  | error fault line context =>
    cases (line : _ = _)
    exact ⟨rfl, context⟩

/-- A look-up that finds the same in contexts that correspond. -/
theorem sameCode_look {f : Context → Except Fault Value} (same : ∀ {c d}, R c d → f d = f c) :
    (sameCode R E).Acts (sameCode R E).Values (Action.look f) (Action.look f) := by
  intro c d context
  unfold Action.look
  rw [same context]
  cases f c with
  | ok v => exact .ok (sameCode_values.2 rfl) context
  | error fault => exact .error fault context

/-- Contexts that correspond hold the same values, and both may be changed alike. -/
structure SameValues (R : Context → Context → Prop) : Prop where
  stack : ∀ {c d}, R c d → d.stack = c.stack
  environment : ∀ {c d}, R c d → d.environment = c.environment
  withStack : ∀ {c d} (s : Stack), R c d → R { c with stack := s } { d with stack := s }
  withEnvironment : ∀ {c d} (e : Environment), R c d →
    R { c with environment := e } { d with environment := e }

namespace SameValues

variable (h : SameValues R)
include h

theorem push {v w : Value} {c d : Context} (same : (sameCode R E).Values v w)
    (context : R c d) :
    R { c with stack := v :: c.stack } { d with stack := w :: d.stack } := by
  obtain rfl := sameCode_values.1 same
  rw [h.stack context]
  exact h.withStack _ context

theorem store {name : Letter} {v w : Value} {c d : Context} (same : (sameCode R E).Values v w)
    (context : R c d) :
    R { c with environment := c.environment.store name v }
      { d with environment := d.environment.store name w } := by
  obtain rfl := sameCode_values.1 same
  rw [h.environment context]
  exact h.withEnvironment _ context

theorem acts_pop (symbol : Char) :
    (sameCode R E).Acts (sameCode R E).Values (Action.pop symbol) (Action.pop symbol) := by
  intro c d context
  unfold Action.pop
  rw [h.stack context]
  cases c.stack.pop symbol with
  | ok popped => exact .ok (sameCode_values.2 rfl) (h.withStack _ context)
  | error fault => exact .error fault context

end SameValues

end SameCode

end Comparison

end FalseLang
