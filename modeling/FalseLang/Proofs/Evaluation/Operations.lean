import FalseLang.Evaluation

/-
  Operations of an evaluation: they are those of the machine, on a line.

  The actions of the machine raise faults, which stand on no line. `Action.onLine`
  gives all faults of an action one line, and by `onLine_bind` those of its parts
  the same. An evaluation hands the line to each of its operations instead. Every
  one of them is the action it is named after, on the line it is given, down to the
  first check of an operand; `exec_eq` puts this together for whole instructions.
-/

namespace FalseLang

/-- An action with the line that its faults stand on. -/
def Action.onLine {α : Type} (a : Action α) (line : Nat) : Evaluation α := fun c =>
  match a c with
  | .ok v d => some (.ok v, d)
  | .error fault d => some (.error ⟨line, fault⟩, d)

namespace Evaluation

section Actions
variable {α β : Type} {symbol : Char} {line : Nat}

theorem bind_apply (e : Evaluation α) (f : α → Evaluation β) (c : Context) :
    (e >>= f) c = (e c).bind fun
      | (.ok v, d) => f v d
      | (.error err, d) => some (.error err, d) := by
  change (e c).bind _ = _
  congr 1
  funext r
  obtain ⟨result, d⟩ := r
  cases result <;> rfl

theorem get_bind (f : Context → Evaluation α) (c : Context) : (get >>= f) c = f c c := rfl

/-- The parts of an action stand on one line. -/
theorem onLine_bind (a : Action α) (f : α → Action β) :
    (a >>= f).onLine line = a.onLine line >>= fun v => (f v).onLine line := by
  funext c
  rw [bind_apply]
  show Action.onLine (EStateM.bind a f) line c = _
  unfold Action.onLine EStateM.bind
  cases a c with
  | ok v d => rfl
  | error fault d => rfl

/-! ## Checks -/

theorem orError_eq (fault : Fault) (o : Option α) :
    (liftM (orError ⟨line, fault⟩ o) : Evaluation α) =
      (Action.lift (o.elim (.error fault) .ok)).onLine line := by
  cases o <;> rfl

theorem asInteger_eq (v : Value) :
    (liftM (asInteger symbol line v) : Evaluation Int64) =
      (Action.lift (v.toInteger symbol)).onLine line := by
  cases v <;> rfl

theorem asQuotation_eq (v : Value) :
    (liftM (asQuotation symbol line v) : Evaluation Code) =
      (Action.lift (v.toQuotation symbol)).onLine line := by
  cases v <;> rfl

theorem asName_eq (v : Value) :
    (liftM (asName symbol line v) : Evaluation Letter) =
      (Action.lift (v.toName symbol)).onLine line := by
  cases v <;> rfl

theorem isTrue_eq (v : Value) :
    (liftM (isTrue symbol line v) : Evaluation Bool) =
      (Action.lift (v.toBool symbol)).onLine line := by
  cases v <;> rfl

theorem floorDiv_eq (a b : Int64) :
    (liftM (floorDiv a b line) : Evaluation Int64) =
      (Action.lift (Integer.floorDiv a b)).onLine line := by
  unfold floorDiv Integer.floorDiv
  by_cases divisor : b = 0
  · rw [if_pos divisor, if_pos divisor]
    rfl
  · rw [if_neg divisor, if_neg divisor]
    cases Integer.checkedDiv? a b with
    | none => rfl
    | some quotient =>
      show (liftM (if _ then _ else _ : Except RuntimeError Int64) : Evaluation Int64) = _
      split <;> rfl

theorem toChar_eq (code : Int64) :
    (liftM (toChar code line) : Evaluation Char) =
      (Action.lift (Integer.toChar code)).onLine line := by
  unfold toChar Integer.toChar
  cases Integer.toChar? code <;> rfl

theorem pickIndex_eq (index : Int64) (depth : Nat) :
    (liftM (pickIndex index depth line) : Evaluation Nat) =
      (Action.lift (Integer.pickIndex index depth)).onLine line := by
  unfold pickIndex Integer.pickIndex
  split <;> rfl

/-- To check the index and then to look it up is to pick. -/
theorem pick_eq (s : Stack) (index : Int64) :
    (do
      let i ← pickIndex index s.length line
      orError ⟨line, .indexOutOfRange index s.length⟩ (s.fromTop? i) : Evaluation Value) =
      (Action.lift (s.pick index)).onLine line := by
  rw [pickIndex_eq, Stack.pick_eq]
  cases Integer.pickIndex index s.length with
  | error fault => rfl
  | ok i => exact orError_eq _ _

theorem orOverflow_eq (n : Int) : Integer.orOverflow symbol n =
    (Integer.ofInt? n).elim (.error (.overflow symbol)) .ok := by
  unfold Integer.orOverflow
  cases Integer.ofInt? n <;> rfl

/-! ## The stack, the variables and the devices -/

theorem pop_eq : pop symbol line = (Action.pop symbol).onLine line := by
  funext c
  obtain ⟨stack, environment, input, output, limit, depth⟩ := c
  cases stack <;> rfl

theorem peek_eq : peek symbol line = (Action.peek symbol).onLine line := by
  funext c
  obtain ⟨stack, environment, input, output, limit, depth⟩ := c
  cases stack <;> rfl

theorem popInteger_eq : popInteger symbol line = (Action.popInteger symbol).onLine line := by
  unfold popInteger Action.popInteger
  simp only [pop_eq, asInteger_eq, onLine_bind]

theorem load_eq (name : Letter) : load name line =
    (do Action.lift ((← get).environment.load name) : Action Value).onLine line := by
  funext c
  show (liftM (orError _ (c.environment.get name)) : Evaluation Value) c =
    (Action.lift (c.environment.load name)).onLine line c
  rw [orError_eq, Environment.load]
  cases c.environment.get name <;> rfl

theorem onOutput_eq (act : Output → EStateM.Result DeviceError Output Unit) :
    onOutput act line = (Action.onOutput act).onLine line := by
  funext c
  obtain ⟨stack, environment, input, output, limit, depth⟩ := c
  unfold onOutput Action.onOutput Action.onLine
  rw [get_bind]
  dsimp only
  cases act output <;> rfl

theorem write_eq (bytes : List UInt8) : write bytes line = (Action.write bytes).onLine line :=
  onOutput_eq _

theorem flushOutput_eq : onOutput Output.flush line = Action.flushOutput.onLine line :=
  onOutput_eq _

theorem flushInput_eq : flushInput line = Action.flushInput.onLine line := by
  funext c
  unfold flushInput Action.flushInput Action.onLine
  rw [get_bind]
  dsimp only
  cases c.input.flush <;> rfl

theorem readInput_eq : readInput line =
    (do
      Action.flushOutput
      return (← Action.readChar).elim (-1) Integer.ofChar : Action Int64).onLine line := by
  unfold readInput
  simp only [onLine_bind, flushOutput_eq]
  refine bind_congr fun _ => ?_
  funext c
  unfold Action.readChar Action.onLine
  rw [get_bind, bind_apply]
  dsimp only
  cases c.input.readChar with
  | error e input => rfl
  | ok char input => cases char <;> rfl

/-! ## Primitives -/

theorem binary_eq (f : Int64 → Int64 → Option Int64) : binary symbol line f =
    (Action.binary symbol fun a b => (f a b).elim (.error (.overflow symbol)) .ok).onLine line := by
  unfold binary Action.binary
  simp only [popInteger_eq, orError_eq, onLine_bind]
  rfl

theorem primitive_eq (p : Primitive) : primitive p line = p.perform.onLine line := by
  cases p with
  | duplicate | drop | swap | rotate | not =>
    unfold primitive Primitive.perform
    simp only [onLine_bind, peek_eq, pop_eq, popInteger_eq]
    rfl
  | pick =>
    unfold primitive Primitive.perform
    simp only [onLine_bind, popInteger_eq, ← pick_eq, bind_assoc]
    rfl
  | add | subtract | multiply =>
    unfold primitive Primitive.perform
    simp only [binary_eq, orOverflow_eq]
  | bitAnd | bitOr | greater | equal => exact binary_eq _
  | divide =>
    unfold primitive Primitive.perform Action.binary
    simp only [onLine_bind, popInteger_eq, floorDiv_eq]
    rfl
  | negate =>
    unfold primitive Primitive.perform
    simp only [onLine_bind, popInteger_eq, orError_eq, orOverflow_eq]
    rfl
  | readChar =>
    unfold primitive Primitive.perform
    simp only [onLine_bind, readInput_eq, bind_assoc]
    refine bind_congr fun _ => bind_congr fun char => ?_
    cases char <;> rfl
  | writeChar | writeDecimal | flush =>
    unfold primitive Primitive.perform
    simp only [onLine_bind, popInteger_eq, toChar_eq, write_eq, flushInput_eq, flushOutput_eq]

end Actions

/-! ## Instructions -/

section Instructions
variable (nested : Code → Nat → Evaluation Unit) (rounds : Code → Code → Nat → Evaluation Unit)

/-- What has to run after an instruction on the line. -/
def follow (line : Nat) : Effect → Evaluation Unit
  | .proceed => pure ()
  | .call body => nested body line
  | .loop condition body => rounds condition body line

theorem execute_eq (conditional : Bool) (line : Nat) : execute nested conditional line =
    (Op.execute conditional).perform.onLine line >>= follow nested rounds line := by
  unfold execute
  cases conditional with
  | false =>
    simp only [Op.perform, Action.popQuotation, onLine_bind, pop_eq, asQuotation_eq, bind_assoc]
    rfl
  | true =>
    simp only [Op.perform, Action.popQuotation, Action.popBool, onLine_bind, pop_eq,
      asQuotation_eq, isTrue_eq, bind_assoc, if_true]
    refine bind_congr fun _ => bind_congr fun body => bind_congr fun _ => bind_congr fun more => ?_
    cases more <;> rfl

theorem loop_eq (line : Nat) : loop rounds line =
    Op.loop.perform.onLine line >>= follow nested rounds line := by
  unfold loop
  simp only [Op.perform, onLine_bind, pop_eq, asQuotation_eq, bind_assoc]
  rfl

/-- **Lines are handed down or added, it is the same.** To execute an instruction, with its line
given to every operation, is to perform it, to give all its faults that line, and then to run
what it makes run. -/
theorem exec_eq (i : Instruction) : exec nested rounds i =
    i.perform.onLine i.line >>= follow nested rounds i.line := by
  match i with
  | .op _ (.integer _) | .op _ (.character _) | .op _ (.letter _) | .quotation _ _ => rfl
  | .op line (.print text) =>
    simp only [exec, Instruction.perform, Op.perform, write_eq, onLine_bind, bind_assoc]
    exact bind_pure_unit.symm
  | .op line (.primitive p) =>
    simp only [exec, Instruction.perform, Op.perform, primitive_eq, onLine_bind, bind_assoc]
    exact bind_pure_unit.symm
  | .op line (.execute conditional) => exact execute_eq nested rounds conditional line
  | .op line .loop => exact loop_eq nested rounds line
  | .op line .store =>
    simp only [exec, Instruction.perform, Op.perform, Action.popName, pop_eq, asName_eq,
      onLine_bind, bind_assoc]
    rfl
  | .op line .load =>
    simp only [exec, Instruction.perform, Op.perform, Action.popName, pop_eq, asName_eq, load_eq,
      onLine_bind, bind_assoc]
    rfl

end Instructions

end Evaluation

end FalseLang
