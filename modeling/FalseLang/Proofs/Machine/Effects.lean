import FalseLang.Machine

/-
  Effects: what each operation can lead to.

  There are two tables. `Op.Raises` has the faults: a missing or a wrong operand is
  reported with the character the operation is written as, and every other fault
  belongs to a few operations. `Op.Starts` has what runs next: two operations call
  a quotation and one starts a loop. `Instruction.perform_raises` and
  `Instruction.perform_starts` say that performing an instruction keeps to them.

  Entering a quotation is left to the machine. The fault of the nesting limit is in
  the table for the operations that call, although none raises it by itself.
-/

namespace FalseLang

/-- The character that an operation other than a literal is written as. -/
def Op.symbol? : Op → Option Char
  | .primitive p => some p.symbol
  | .execute false => some '!'
  | .execute true => some '?'
  | .loop => some '#'
  | .store => some ':'
  | .load => some ';'
  | .integer _ | .character _ | .letter _ | .print _ => none

/-- The faults that an operation can raise under a nesting limit. -/
def Op.Raises (limit : Nat) (o : Op) : Fault → Prop
  | .stackUnderflow symbol => o.symbol? = some symbol
  | .typeMismatch symbol _ _ => o.symbol? = some symbol
  | .overflow symbol =>
    o.symbol? = some symbol ∧ o ∈ [.primitive .add, .primitive .subtract, .primitive .multiply,
      .primitive .divide, .primitive .negate]
  | .divisionByZero => o = .primitive .divide
  | .indexOutOfRange .. => o = .primitive .pick
  | .invalidCharacter _ => o = .primitive .writeChar
  | .unboundVariable _ => o = .load
  | .recursionLimit k => k = limit ∧ o ∈ [.execute false, .execute true, .loop]
  | .io _ =>
    (∃ text, o = .print text) ∨ o ∈ [.primitive .writeChar, .primitive .writeDecimal,
      .primitive .readChar, .primitive .flush]

/-- The faults that an instruction can raise; pushing a quotation raises none. -/
def Instruction.Raises (limit : Nat) : Instruction → Fault → Prop
  | .op _ o => o.Raises limit
  | .quotation _ _ => fun _ => False

/-- What can run after an operation, besides the instruction behind it. -/
def Op.Starts (o : Op) : Effect → Prop
  | .proceed => True
  | .call _ => o ∈ [.execute false, .execute true]
  | .loop _ _ => o = .loop

/-- What can run after an instruction; a quotation that is pushed does not run. -/
def Instruction.Starts : Instruction → Effect → Prop
  | .op _ o => o.Starts
  | .quotation _ _ => fun effect => effect = .proceed

/-- An instruction that calls a quotation can meet the nesting limit. -/
theorem Instruction.raises_limit_of_starts_call {i : Instruction} {body : Code}
    (h : i.Starts (.call body)) (limit : Nat) : i.Raises limit (.recursionLimit limit) := by
  cases i with
  | op line o =>
    simp only [Instruction.Starts, Op.Starts, List.mem_cons, List.not_mem_nil, or_false] at h
    rcases h with rfl | rfl <;> exact ⟨rfl, by decide⟩
  | quotation line body => cases h

/-- Only a loop starts a loop. -/
theorem Instruction.eq_loop_of_starts {i : Instruction} {condition body : Code}
    (h : i.Starts (.loop condition body)) : ∃ line, i = .op line .loop := by
  cases i with
  | op line o =>
    cases (h : o = .loop)
    exact ⟨line, rfl⟩
  | quotation line body => cases h

namespace Action

/-- An action that fails with some faults only. -/
def RaisesOnly {α : Type} (allowed : Fault → Prop) (x : Action α) : Prop :=
  ∀ c fault d, x c = .error fault d → allowed fault

section
variable {α β : Type} {allowed : Fault → Prop}

theorem raisesOnly_pure (a : α) : RaisesOnly allowed (pure a) := by
  intro c fault d h
  cases h

theorem raisesOnly_bind {x : Action α} {f : α → Action β} (hx : RaisesOnly allowed x)
    (hf : ∀ a, RaisesOnly allowed (f a)) : RaisesOnly allowed (x >>= f) := by
  intro c fault d h
  change EStateM.bind x f c = _ at h
  unfold EStateM.bind at h
  cases hr : x c with
  | ok a e => rw [hr] at h; exact hf a e fault d h
  | error first e =>
    rw [hr] at h
    cases h
    exact hx c fault d hr

theorem raisesOnly_lift {e : Except Fault α} (h : ∀ fault, e = .error fault → allowed fault) :
    RaisesOnly allowed (lift e) := by
  intro c fault d failed
  cases e with
  | ok a => cases failed
  | error first =>
    cases failed
    exact h fault rfl

theorem raisesOnly_push (v : Value) : RaisesOnly allowed (push v) := by
  intro c fault d h
  cases h

theorem raisesOnly_get : RaisesOnly allowed get := by
  intro c fault d h
  cases h

theorem raisesOnly_onOutput {act : Output → EStateM.Result DeviceError Output Unit}
    (io : ∀ e, allowed (.io e)) : RaisesOnly allowed (onOutput act) := by
  intro c fault d h
  unfold onOutput at h
  dsimp only at h
  cases hr : act c.output with
  | ok u o => rw [hr] at h; cases h
  | error e o =>
    rw [hr] at h
    cases h
    exact io e

theorem raisesOnly_flushInput (io : ∀ e, allowed (.io e)) : RaisesOnly allowed flushInput := by
  intro c fault d h
  unfold flushInput at h
  cases hr : c.input.flush with
  | ok u i => rw [hr] at h; cases h
  | error e i =>
    rw [hr] at h
    cases h
    exact io e

/-- A device that fails to read is like one that has ended. -/
theorem raisesOnly_readChar : RaisesOnly allowed readChar := by
  intro c fault d h
  unfold readChar at h
  cases hr : c.input.readChar <;> rw [hr] at h <;> cases h

end

end Action

/-! ## Operands -/

namespace Op

variable {o : Op} {limit : Nat} {symbol : Char}

section Operands
variable (h : o.symbol? = some symbol)
include h

theorem raisesOnly_pop : Action.RaisesOnly (o.Raises limit) (Action.pop symbol) := by
  intro c fault d failed
  unfold Action.pop at failed
  cases hs : c.stack <;> rw [hs] at failed <;> cases failed
  exact h

theorem raisesOnly_peek : Action.RaisesOnly (o.Raises limit) (Action.peek symbol) := by
  intro c fault d failed
  unfold Action.peek at failed
  cases hs : c.stack <;> rw [hs] at failed <;> cases failed
  exact h

/-- A value of the wrong kind is reported with the character of the operation. -/
theorem raisesOnly_toQuotation (v : Value) :
    Action.RaisesOnly (o.Raises limit) (Action.lift (v.toQuotation symbol)) := by
  refine Action.raisesOnly_lift (fun fault failed => ?_)
  cases v <;> cases failed <;> exact h

/-- An operand of a certain kind: it may be missing, or of another kind. -/
theorem raisesOnly_popAs {α : Type} {convert : Value → Except Fault α}
    (wrong : ∀ v fault, convert v = .error fault → o.Raises limit fault) :
    Action.RaisesOnly (o.Raises limit)
      (Action.pop symbol >>= fun v => Action.lift (convert v)) :=
  Action.raisesOnly_bind (raisesOnly_pop h) (fun v => Action.raisesOnly_lift (wrong v))

theorem raisesOnly_popInteger : Action.RaisesOnly (o.Raises limit) (Action.popInteger symbol) := by
  refine raisesOnly_popAs h (fun v fault failed => ?_)
  cases v <;> cases failed <;> exact h

theorem raisesOnly_popBool : Action.RaisesOnly (o.Raises limit) (Action.popBool symbol) := by
  refine raisesOnly_popAs h (fun v fault failed => ?_)
  cases v <;> cases failed <;> exact h

theorem raisesOnly_popName : Action.RaisesOnly (o.Raises limit) (Action.popName symbol) := by
  refine raisesOnly_popAs h (fun v fault failed => ?_)
  cases v <;> cases failed <;> exact h

theorem raisesOnly_popQuotation :
    Action.RaisesOnly (o.Raises limit) (Action.popQuotation symbol) :=
  Action.raisesOnly_bind (raisesOnly_pop h) (fun v => raisesOnly_toQuotation h v)

theorem raisesOnly_binary {f : Int64 → Int64 → Except Fault Int64}
    (computed : ∀ a b fault, f a b = .error fault → o.Raises limit fault) :
    Action.RaisesOnly (o.Raises limit) (Action.binary symbol f) := by
  refine Action.raisesOnly_bind (raisesOnly_popInteger h) (fun b => ?_)
  refine Action.raisesOnly_bind (raisesOnly_popInteger h) (fun a => ?_)
  refine Action.raisesOnly_bind (Action.raisesOnly_lift (computed a b)) (fun n => ?_)
  exact Action.raisesOnly_push _

end Operands

/-! ## What is computed from operands -/

theorem orOverflow_raises {n : Int} {fault : Fault} (written : o.symbol? = some symbol)
    (arithmetic : o ∈ [.primitive .add, .primitive .subtract, .primitive .multiply,
      .primitive .divide, .primitive .negate])
    (h : Integer.orOverflow symbol n = .error fault) : o.Raises limit fault := by
  unfold Integer.orOverflow at h
  split at h
  · cases h
  · cases h
    exact ⟨written, arithmetic⟩

theorem floorDiv_raises {a b : Int64} {fault : Fault} (h : Integer.floorDiv a b = .error fault) :
    (Op.primitive .divide).Raises limit fault := by
  rw [Integer.floorDiv_eq] at h
  split at h
  · cases h
    rfl
  · exact orOverflow_raises rfl (by decide) h

theorem toChar_raises {code : Int64} {fault : Fault} (h : Integer.toChar code = .error fault) :
    (Op.primitive .writeChar).Raises limit fault := by
  unfold Integer.toChar at h
  split at h
  · cases h
  · cases h
    rfl

theorem pick_raises {s : Stack} {index : Int64} {fault : Fault}
    (h : s.pick index = .error fault) : (Op.primitive .pick).Raises limit fault := by
  unfold Stack.pick at h
  split at h
  · cases h
  · cases h
    rfl

theorem load_raises {e : Environment} {name : Letter} {fault : Fault}
    (h : e.load name = .error fault) : Op.load.Raises limit fault := by
  unfold Environment.load at h
  split at h
  · cases h
  · cases h
    rfl

end Op

/-! ## Instructions -/

section Instructions
open FalseLang.Action FalseLang.Op

theorem Primitive.perform_raises (limit : Nat) (p : Primitive) :
    RaisesOnly ((Op.primitive p).Raises limit) p.perform := by
  -- Every operand is asked for with the symbol of the primitive itself.
  have written : (Op.primitive p).symbol? = some p.symbol := rfl
  unfold Primitive.perform
  cases p with
  | duplicate => exact raisesOnly_bind (raisesOnly_peek written) (fun v => raisesOnly_push v)
  | drop => exact raisesOnly_bind (raisesOnly_pop written) (fun _ => raisesOnly_pure _)
  | swap =>
    refine raisesOnly_bind (raisesOnly_pop written) (fun b => ?_)
    refine raisesOnly_bind (raisesOnly_pop written) (fun a => ?_)
    exact raisesOnly_bind (raisesOnly_push b) (fun _ => raisesOnly_push a)
  | rotate =>
    refine raisesOnly_bind (raisesOnly_pop written) (fun c => ?_)
    refine raisesOnly_bind (raisesOnly_pop written) (fun b => ?_)
    refine raisesOnly_bind (raisesOnly_pop written) (fun a => ?_)
    refine raisesOnly_bind (raisesOnly_push b) (fun _ => ?_)
    exact raisesOnly_bind (raisesOnly_push c) (fun _ => raisesOnly_push a)
  | pick =>
    refine raisesOnly_bind (raisesOnly_popInteger written) (fun index => ?_)
    refine raisesOnly_bind raisesOnly_get (fun c => ?_)
    refine raisesOnly_bind (raisesOnly_lift ?_) (fun v => raisesOnly_push v)
    exact fun _ failed => pick_raises failed
  | add | subtract | multiply =>
    refine raisesOnly_binary written (fun a b fault failed => ?_)
    exact orOverflow_raises written (by decide) failed
  | divide => exact raisesOnly_binary written (fun a b fault failed => floorDiv_raises failed)
  | bitAnd | bitOr | greater | equal =>
    refine raisesOnly_binary written (fun a b fault failed => ?_)
    cases failed
  | negate =>
    refine raisesOnly_bind (raisesOnly_popInteger written) (fun a => ?_)
    refine raisesOnly_bind (raisesOnly_lift ?_) (fun n => raisesOnly_push _)
    exact fun _ failed => orOverflow_raises written (by decide) failed
  | not => exact raisesOnly_bind (raisesOnly_popInteger written) (fun a => raisesOnly_push _)
  | readChar =>
    refine raisesOnly_bind (raisesOnly_onOutput fun e => ?_) (fun _ => ?_)
    · exact Or.inr (by decide)
    · refine raisesOnly_bind raisesOnly_readChar (fun char => ?_)
      cases char <;> exact raisesOnly_push _
  | writeChar =>
    refine raisesOnly_bind (raisesOnly_popInteger written) (fun code => ?_)
    refine raisesOnly_bind (raisesOnly_lift fun _ failed => toChar_raises failed) (fun c => ?_)
    exact raisesOnly_onOutput fun e => Or.inr (by decide)
  | writeDecimal =>
    refine raisesOnly_bind (raisesOnly_popInteger written) (fun n => ?_)
    exact raisesOnly_onOutput fun e => Or.inr (by decide)
  | flush =>
    refine raisesOnly_bind (raisesOnly_flushInput fun e => ?_) (fun _ => ?_)
    · exact Or.inr (by decide)
    · exact raisesOnly_onOutput fun e => Or.inr (by decide)

theorem Op.perform_raises (limit : Nat) (o : Op) : RaisesOnly (o.Raises limit) o.perform := by
  match o with
  | .integer value => exact raisesOnly_bind (raisesOnly_push _) (fun _ => raisesOnly_pure _)
  | .character code => exact raisesOnly_bind (raisesOnly_push _) (fun _ => raisesOnly_pure _)
  | .letter name => exact raisesOnly_bind (raisesOnly_push _) (fun _ => raisesOnly_pure _)
  | .primitive p => exact raisesOnly_bind (p.perform_raises limit) (fun _ => raisesOnly_pure _)
  | .print text =>
    refine raisesOnly_bind (raisesOnly_onOutput fun e => ?_) (fun _ => raisesOnly_pure _)
    exact Or.inl ⟨text, rfl⟩
  | .execute false =>
    exact raisesOnly_bind (raisesOnly_popQuotation rfl) (fun _ => raisesOnly_pure _)
  | .execute true =>
    refine raisesOnly_bind (raisesOnly_popQuotation rfl) (fun body => ?_)
    refine raisesOnly_bind (raisesOnly_popBool rfl) (fun condition => ?_)
    cases condition <;> exact raisesOnly_pure _
  | .loop =>
    refine raisesOnly_bind (raisesOnly_pop rfl) (fun body => ?_)
    refine raisesOnly_bind (raisesOnly_pop rfl) (fun condition => ?_)
    refine raisesOnly_bind (raisesOnly_toQuotation rfl body) (fun _ => ?_)
    exact raisesOnly_bind (raisesOnly_toQuotation rfl condition) (fun _ => raisesOnly_pure _)
  | .store =>
    refine raisesOnly_bind (raisesOnly_popName rfl) (fun name => ?_)
    refine raisesOnly_bind (raisesOnly_pop rfl) (fun v => ?_)
    refine raisesOnly_bind (fun c fault d failed => ?_) (fun _ => raisesOnly_pure _)
    cases failed
  | .load =>
    refine raisesOnly_bind (raisesOnly_popName rfl) (fun name => ?_)
    refine raisesOnly_bind raisesOnly_get (fun c => ?_)
    refine raisesOnly_bind (raisesOnly_lift fun _ failed => load_raises failed) (fun v => ?_)
    exact raisesOnly_bind (raisesOnly_push v) (fun _ => raisesOnly_pure _)

/-- Performing an instruction raises only the faults that the table has for it. -/
theorem Instruction.perform_raises (limit : Nat) (i : Instruction) :
    RaisesOnly (i.Raises limit) i.perform := by
  cases i with
  | op line o => exact o.perform_raises limit
  | quotation line body =>
    exact raisesOnly_bind (raisesOnly_push _) (fun _ => raisesOnly_pure _)

end Instructions

/-! ## What runs next -/

namespace Action

/-- An action whose results, if it gives any, have a property. -/
def Gives {α : Type} (P : α → Prop) (x : Action α) : Prop := ∀ c a d, x c = .ok a d → P a

theorem gives_pure {α : Type} {P : α → Prop} {a : α} (h : P a) : Gives P (pure a) := by
  intro c b d given
  cases given
  exact h

/-- Of actions one after the other, the last gives the result. -/
theorem gives_bind {α β : Type} {P : β → Prop} {x : Action α} {f : α → Action β}
    (hf : ∀ a, Gives P (f a)) : Gives P (x >>= f) := by
  intro c b d given
  change EStateM.bind x f c = _ at given
  unfold EStateM.bind at given
  cases hr : x c with
  | ok a e => rw [hr] at given; exact hf a e b d given
  | error fault e => rw [hr] at given; cases given

end Action

section Instructions
open FalseLang.Action

theorem Op.perform_starts (o : Op) : Gives o.Starts o.perform := by
  match o with
  | .integer _ | .character _ | .letter _ | .primitive _ | .print _ =>
    exact gives_bind fun _ => gives_pure trivial
  | .execute false => exact gives_bind fun body => gives_pure (by simp [Op.Starts])
  | .execute true =>
    refine gives_bind fun body => gives_bind fun condition => ?_
    cases condition with
    | true => exact gives_pure (by simp [Op.Starts])
    | false => exact gives_pure trivial
  | .loop =>
    exact gives_bind fun _ => gives_bind fun _ => gives_bind fun _ => gives_bind fun _ =>
      gives_pure rfl
  | .store => exact gives_bind fun _ => gives_bind fun _ => gives_bind fun _ => gives_pure trivial
  | .load =>
    exact gives_bind fun _ => gives_bind fun _ => gives_bind fun _ => gives_bind fun _ =>
      gives_pure trivial

/-- What runs after an instruction is what the table has for it. -/
theorem Instruction.perform_starts (i : Instruction) : Gives i.Starts i.perform := by
  cases i with
  | op line o => exact o.perform_starts
  | quotation line body => exact gives_bind fun _ => gives_pure rfl

end Instructions

end FalseLang
