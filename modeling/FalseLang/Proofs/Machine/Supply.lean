import FalseLang.Proofs.Machine.Simulation

/-
  Supplies: what a run can ever get hold of.

  No instruction makes new code. What runs, what lies on the stack and what the
  variables hold are parts of what was there at the start. A `Supply` is a choice
  of instructions, bodies and names that is closed: whatever is found inside of a
  part of it belongs to it too. If a context is stocked from a supply and only its
  instructions run, that stays so through every instruction (`Supply.perform`),
  every step (`Supply.step`) and hence for ever.

  The instructions are not gone through for this. A supply is a comparison of a
  run with itself, in which two values correspond if they are equal and supplied.
-/

namespace FalseLang

/-! ## Parts of code -/

mutual

/-- An instruction and, if it is a quotation, everything inside of it. -/
def Instruction.parts : Instruction → List Instruction
  | .op line o => [.op line o]
  | .quotation line body => .quotation line body :: Code.parts body

/-- The instructions of code, at every level. -/
def Code.parts : Code → List Instruction
  | [] => []
  | i :: rest => i.parts ++ Code.parts rest

end

/-- The instructions of the code that a value holds, at every level. -/
def Value.parts : Value → List Instruction
  | .quotation body => body.parts
  | _ => []

theorem Instruction.mem_parts (i : Instruction) : i ∈ i.parts := by
  cases i <;> simp [Instruction.parts]

theorem Code.mem_parts_of_mem {code : Code} {i j : Instruction} (h : i ∈ code)
    (inside : j ∈ i.parts) : j ∈ code.parts := by
  induction code with
  | nil => cases h
  | cons k rest ih =>
    rw [Code.parts, List.mem_append]
    rcases List.mem_cons.1 h with rfl | later
    · exact Or.inl inside
    · exact Or.inr (ih later)

/-! ## The values of a context -/

/-- The value is on the stack or in a variable. -/
def Context.Has (c : Context) (v : Value) : Prop :=
  v ∈ c.stack ∨ ∃ name, c.environment.get name = some v

namespace Context

variable {c : Context} {v w : Value}

theorem has_of_push (h : Has { c with stack := v :: c.stack } w) : c.Has w ∨ w = v := by
  rcases h with mem | bound
  · rcases List.mem_cons.1 mem with same | old
    · exact Or.inr same
    · exact Or.inl (Or.inl old)
  · exact Or.inl (Or.inr bound)

theorem has_of_pop {rest : Stack} (popped : c.stack = v :: rest)
    (h : Has { c with stack := rest } w) : c.Has w := by
  rcases h with mem | bound
  · refine Or.inl ?_
    rw [popped]
    exact List.mem_cons_of_mem v mem
  · exact Or.inr bound

theorem has_of_store {name : Letter}
    (h : Has { c with environment := c.environment.store name v } w) :
    c.Has w ∨ w = v := by
  rcases h with mem | ⟨other, bound⟩
  · exact Or.inl (Or.inl mem)
  · by_cases target : name = other
    · subst target
      rw [Environment.get_store_same] at bound
      exact Or.inr (Option.some.inj bound).symm
    · rw [Environment.get_store_ne target] at bound
      exact Or.inl (Or.inr ⟨other, bound⟩)

theorem has_of_peek {symbol : Char} (h : c.stack.peek symbol = .ok v) : c.Has v := by
  cases hs : c.stack with
  | nil => rw [hs] at h; cases h
  | cons w rest =>
    rw [hs] at h
    cases h
    exact Or.inl (hs ▸ List.mem_cons_self)

theorem has_of_pick {index : Int64} (h : c.stack.pick index = .ok v) : c.Has v := by
  unfold Stack.pick Stack.fromTop? at h
  split at h
  · rename_i found
    cases h
    split at found
    · exact Or.inl (List.mem_of_getElem? found)
    · cases found
  · cases h

theorem has_of_load {name : Letter} (h : c.environment.load name = .ok v) : c.Has v := by
  unfold Environment.load at h
  split at h
  · rename_i bound
    cases h
    exact Or.inr ⟨name, bound⟩
  · cases h

end Context

/-! ## Supplies -/

/-- What a run may use. -/
structure Supply where
  instruction : Instruction → Prop
  /-- The bodies of quotations that may be pushed, stored and run. -/
  body : Code → Prop
  name : Letter → Prop
  of_body : ∀ {code i}, body code → i ∈ code → instruction i
  of_quotation : ∀ {line code}, instruction (.quotation line code) → body code
  of_letter : ∀ {line letter}, instruction (.op line (.letter letter)) → name letter

namespace Supply

/-- The supply of all code that has only some instructions, at every level. -/
def ofParts (allowed : Instruction → Prop) : Supply where
  instruction i := ∀ j ∈ i.parts, allowed j
  body code := ∀ j ∈ code.parts, allowed j
  name _ := True
  of_body h mem j inside := h j (Code.mem_parts_of_mem mem inside)
  of_quotation h j inside := h j (List.mem_cons_of_mem _ inside)
  of_letter _ := trivial

variable (S : Supply)

def value : Value → Prop
  | .integer _ => True
  | .quotation body => S.body body
  | .name letter => S.name letter

def effect : Effect → Prop
  | .proceed => True
  | .call body => S.body body
  | .loop condition body => S.body condition ∧ S.body body

/-- Every value of the context belongs to the supply. -/
def Stocks (c : Context) : Prop := ∀ v, c.Has v → S.value v

theorem ofParts_value {allowed : Instruction → Prop} {v : Value} :
    (ofParts allowed).value v ↔ ∀ i ∈ v.parts, allowed i := by
  cases v <;> simp [value, Value.parts, ofParts]

/-- The comparison of a run that uses the supply with itself. -/
def comparison : Comparison where
  context c d := c = d ∧ S.Stocks c
  body a b := a = b ∧ S.body a
  name := S.name
  line _ _ := True
  excused _ _ _ := False

variable {S}

theorem values_iff {v w : Value} : S.comparison.Values v w ↔ v = w ∧ S.value v := by
  constructor
  · intro h
    cases h with
    | integer n => exact ⟨rfl, trivial⟩
    | quotation same => exact ⟨congrArg Value.quotation same.1, same.2⟩
    | name known => exact ⟨rfl, known⟩
  · rintro ⟨rfl, supplied⟩
    cases v with
    | integer n => exact .integer n
    | quotation body => exact .quotation ⟨rfl, supplied⟩
    | name letter => exact .name supplied

theorem matches_self {i : Instruction} (h : S.instruction i) : S.comparison.Matches i i := by
  cases i with
  | op line o =>
    refine .op trivial rfl ?_
    rintro letter rfl
    exact S.of_letter h
  | quotation line body => exact .quotation trivial ⟨rfl, S.of_quotation h⟩

theorem codes_self {code : Code} (h : ∀ i ∈ code, S.instruction i) :
    S.comparison.Codes code code := by
  induction code with
  | nil => exact .nil
  | cons i rest ih =>
    exact .cons (matches_self (h i List.mem_cons_self))
      (ih fun j mem => h j (List.mem_cons_of_mem i mem))

/-! ## Actions keep to a supply -/

/-- A context whose values are old ones or supplied is stocked. -/
theorem Stocks.of_has {c d : Context} {v : Value} (h : S.Stocks c) (supplied : S.value v)
    (old : ∀ w, d.Has w → c.Has w ∨ w = v) : S.Stocks d := by
  intro w has
  rcases old w has with before | rfl
  · exact h w before
  · exact supplied

theorem sameDevices : Comparison.SameDevices S.comparison.context where
  output h := by rw [h.1]
  input h := by rw [h.1]
  withOutput _ h := ⟨by rw [h.1], h.2⟩
  withInput _ h := ⟨by rw [h.1], h.2⟩

/-- What is looked up in a context is one of its values. -/
theorem look {f : Context → Except Fault Value} (found : ∀ {c v}, f c = .ok v → c.Has v) :
    S.comparison.Acts S.comparison.Values (Action.look f) (Action.look f) := by
  rintro c _ ⟨rfl, stocked⟩
  unfold Action.look
  cases hf : f c with
  | ok v => exact .ok (values_iff.2 ⟨rfl, stocked v (found hf)⟩) ⟨rfl, stocked⟩
  | error fault => exact .error fault ⟨rfl, stocked⟩

theorem pop (symbol : Char) :
    S.comparison.Acts S.comparison.Values (Action.pop symbol) (Action.pop symbol) := by
  rintro c _ ⟨rfl, stocked⟩
  unfold Action.pop
  cases popped : c.stack with
  | nil => exact .error _ ⟨rfl, stocked⟩
  | cons v rest =>
    have top : c.Has v := Or.inl (popped ▸ List.mem_cons_self)
    refine .ok (values_iff.2 ⟨rfl, stocked v top⟩) ⟨rfl, fun w has => ?_⟩
    exact stocked w (Context.has_of_pop popped has)

theorem lawful : S.comparison.Lawful where
  push same h := by
    obtain ⟨rfl, supplied⟩ := values_iff.1 same
    obtain ⟨rfl, stocked⟩ := h
    exact ⟨rfl, stocked.of_has supplied fun _ => Context.has_of_push⟩
  pop := pop
  peek symbol := look Context.has_of_peek
  pick index := look Context.has_of_pick
  load name _ := look Context.has_of_load
  store _ same h := by
    obtain ⟨rfl, supplied⟩ := values_iff.1 same
    obtain ⟨rfl, stocked⟩ := h
    exact ⟨rfl, stocked.of_has supplied fun _ => Context.has_of_store⟩
  write text := sameDevices.acts_onOutput _
  flushOutput := sameDevices.acts_onOutput _
  flushInput := sameDevices.acts_flushInput
  readChar := sameDevices.acts_readChar
  enter h := by
    obtain ⟨rfl, stocked⟩ := h
    unfold Action.enter
    split
    · exact .error _ ⟨rfl, stocked⟩
    · exact .ok rfl ⟨rfl, stocked⟩
  unwind k h := ⟨by rw [h.1], h.2⟩
  body h := by
    obtain ⟨rfl, supplied⟩ := h
    exact codes_self fun _ mem => S.of_body supplied mem
  later excuse _ := excuse
  excused_unwind _ excuse := excuse

variable (S) in
/-- What an action gives and leaves belongs to the supply. -/
def Leaves {α : Type} (V : α → Prop) : EStateM.Result Fault Context α → Prop
  | .ok a d => V a ∧ S.Stocks d
  | .error _ d => S.Stocks d

theorem leaves_of_acts {α : Type} {x : Action α} {V : α → α → Prop} {W : α → Prop} {c : Context}
    (acts : S.comparison.Acts V x x) (values : ∀ a, V a a → W a) (h : S.Stocks c) :
    S.Leaves W (x c) := by
  have alike := acts (c := c) (d := c) ⟨rfl, h⟩
  revert alike
  generalize x c = r
  intro alike
  cases alike with
  | ok value context => exact ⟨values _ value, context.2⟩
  | error fault context => exact context.2
  | excused excuse => exact (excuse c c).elim

/-- An instruction of the supply leaves what belongs to it. -/
theorem perform {c : Context} {i : Instruction} (h : S.Stocks c) (supplied : S.instruction i) :
    S.Leaves S.effect (i.perform c) := by
  refine leaves_of_acts (lawful.perform (matches_self supplied)) ?_ h
  intro effect same
  cases same with
  | proceed => trivial
  | call body => exact body.2
  | loop condition body => exact ⟨condition.2, body.2⟩

theorem popBool {c : Context} (h : S.Stocks c) (symbol : Char) :
    S.Leaves (fun _ => True) (Action.popBool symbol c) :=
  leaves_of_acts (lawful.popBool symbol) (fun _ _ => trivial) h

end Supply

end FalseLang
