import FalseLang.Machine
import Mathlib.Data.Int.Bitwise
import Mathlib.Data.Rat.Floor

/-
  Expressions: what code computes that is an arithmetic expression written with the
  operators behind their operands.

  An expression has two meanings. Its exact value is an unbounded integer, and a node
  offends where that value is no integer of the language or the divisor is zero;
  nothing there mentions 64 bits but the range itself. Its checked value is what the
  operations compute one after the other. The two are compared operator by operator
  (`BinaryOperator.compute_settles`), then over trees (`Expression.value_settles`). The
  machine is compared with the checked value only (`Expression.run_code`), for every
  stack below and all code behind, which is what the inner nodes of a tree need.
-/

namespace FalseLang

/-! ## Integers of 64 bits and unbounded integers -/

namespace Integer

/-- An unbounded integer is known by its bits, of which all but finitely many are its sign. -/
theorem eq_of_testBit {m n : ℤ} (same : ∀ k, m.testBit k = n.testBit k) : m = n := by
  have high (a b : ℕ) : a.testBit (a + b) = false :=
    Nat.testBit_lt_two_pow (Nat.lt_of_le_of_lt (Nat.le_add_right a b) Nat.lt_two_pow_self)
  have signs_differ (a b : ℕ) : ¬ ∀ k, a.testBit k = !b.testBit k := by
    intro h
    have beyond := h (a + b)
    rw [high, Nat.add_comm, high] at beyond
    cases beyond
  cases m with
  | ofNat a =>
    cases n with
    | ofNat b => exact congrArg Int.ofNat (Nat.eq_of_testBit_eq same)
    | negSucc b => exact absurd same (signs_differ a b)
  | negSucc a =>
    cases n with
    | ofNat b => exact absurd (fun k => (same k).symm) (signs_differ b a)
    | negSucc b =>
      exact congrArg Int.negSucc (Nat.eq_of_testBit_eq fun k => Bool.not_inj (same k))

/-- Two's complement: the bits of a word are those of its value, and its sign goes on. -/
theorem testBit_toInt {w : ℕ} (x : BitVec w) (k : ℕ) :
    x.toInt.testBit k = if k < w then x.getLsbD k else x.msb := by
  rw [BitVec.toInt_eq_msb_cond]
  by_cases negative : x.msb
  · have value : (x.toNat : ℤ) - (2 ^ w : ℕ) = Int.negSucc (~~~x).toNat := by
      have bound := x.isLt
      rw [BitVec.toNat_not]
      omega
    rw [if_pos negative, value, negative]
    show (!(~~~x).getLsbD k) = _
    by_cases inside : k < w <;> simp [inside]
  · rw [if_neg negative]
    show x.getLsbD k = _
    split
    · rfl
    · rename_i outside
      rw [x.getLsbD_of_ge k (by omega), Bool.eq_false_of_not_eq_true negative]

theorem toInt_and (a b : Int64) : (a &&& b).toInt = Int.land a.toInt b.toInt := by
  refine eq_of_testBit fun k => ?_
  rw [Int.testBit_land]
  simp only [← Int64.toInt_toBitVec, Int64.toBitVec_and, testBit_toInt, BitVec.getLsbD_and,
    BitVec.msb_and]
  split <;> rfl

theorem toInt_or (a b : Int64) : (a ||| b).toInt = Int.lor a.toInt b.toInt := by
  refine eq_of_testBit fun k => ?_
  rw [Int.testBit_lor]
  simp only [← Int64.toInt_toBitVec, Int64.toBitVec_or, testBit_toInt, BitVec.getLsbD_or,
    BitVec.msb_or]
  split <;> rfl

theorem toInt_ofBool (b : Bool) : (ofBool b).toInt = if b then -1 else 0 := by
  cases b <;> decide

/-- The quotient rounded down is the floor of the rational quotient. -/
theorem fdiv_eq_floor (a b : ℤ) : a.fdiv b = ⌊(a : ℚ) / b⌋ := by
  have natural (a : ℤ) (n : ℕ) : a.fdiv n = ⌊(a : ℚ) / n⌋ := by
    rw [Int.fdiv_eq_ediv_of_nonneg _ n.cast_nonneg, Rat.floor_intCast_div_natCast]
  obtain ⟨n, rfl | rfl⟩ := b.eq_nat_or_neg
  · exact natural a n
  · calc a.fdiv (-n) = (-a).fdiv n := by rw [← Int.neg_fdiv_neg, neg_neg]
      _ = ⌊((-a : ℤ) : ℚ) / n⌋ := natural (-a) n
      _ = ⌊(a : ℚ) / (-n : ℤ)⌋ := by push_cast; rw [neg_div, div_neg]

/-- The integers that 64 bits hold. -/
def InRange (n : ℤ) : Prop := -2 ^ 63 ≤ n ∧ n < 2 ^ 63

instance (n : ℤ) : Decidable (InRange n) := inferInstanceAs (Decidable (_ ∧ _))

theorem inRange_toInt (x : Int64) : InRange x.toInt := ⟨x.le_toInt, x.toInt_lt⟩

end Integer

/-! ## Expressions and their exact values -/

/-- The operators with one operand. -/
inductive UnaryOperator where
  | negate
  | not
  deriving DecidableEq

/-- The operators with two operands. -/
inductive BinaryOperator where
  | add
  | subtract
  | multiply
  | divide
  | and
  | or
  | greater
  | equal
  deriving DecidableEq

namespace UnaryOperator

def primitive : UnaryOperator → Primitive
  | .negate => .negate
  | .not => .not

/-- The result without a bound; truth is written as -1. -/
def exact : UnaryOperator → ℤ → ℤ
  | .negate, a => -a
  | .not, a => if a = 0 then -1 else 0

/-- What is wrong with an operation, judged by the exact value of its operand. -/
def fault? (o : UnaryOperator) (a : ℤ) : Option Fault :=
  if Integer.InRange (o.exact a) then none else some (.overflow o.primitive.symbol)

end UnaryOperator

namespace BinaryOperator

def primitive : BinaryOperator → Primitive
  | .add => .add
  | .subtract => .subtract
  | .multiply => .multiply
  | .divide => .divide
  | .and => .bitAnd
  | .or => .bitOr
  | .greater => .greater
  | .equal => .equal

/-- The result without a bound, of which a quotient is rounded down. -/
def exact : BinaryOperator → ℤ → ℤ → ℤ
  | .add, a, b => a + b
  | .subtract, a, b => a - b
  | .multiply, a, b => a * b
  | .divide, a, b => ⌊(a : ℚ) / b⌋
  | .and, a, b => Int.land a b
  | .or, a, b => Int.lor a b
  | .greater, a, b => if a > b then -1 else 0
  | .equal, a, b => if a = b then -1 else 0

/-- What is wrong with an operation, judged by the exact values of its operands. -/
def fault? (o : BinaryOperator) (a b : ℤ) : Option Fault :=
  if o = .divide ∧ b = 0 then some .divisionByZero
  else if Integer.InRange (o.exact a b) then none
  else some (.overflow o.primitive.symbol)

end BinaryOperator

/-- An arithmetic expression. Every node has the line of its own instruction. -/
inductive Expression where
  | literal (line : Nat) (value : Int64)
  | unary (line : Nat) (operator : UnaryOperator) (operand : Expression)
  | binary (line : Nat) (operator : BinaryOperator) (left right : Expression)

namespace Expression

/-- An expression as code: the operands from left to right, and then the operator. -/
def code : Expression → Code
  | .literal line value => [.op line (.integer value)]
  | .unary line o operand => operand.code ++ [.op line (.primitive o.primitive)]
  | .binary line o left right => left.code ++ right.code ++ [.op line (.primitive o.primitive)]

/-- The value of an expression in unbounded integers. -/
def exact : Expression → ℤ
  | .literal _ value => value.toInt
  | .unary _ o operand => o.exact operand.exact
  | .binary _ o left right => o.exact left.exact right.exact

/-- All nodes of an expression, each behind those of its operands. -/
def nodes : Expression → List Expression
  | .literal line value => [.literal line value]
  | .unary line o operand => operand.nodes ++ [.unary line o operand]
  | .binary line o left right => left.nodes ++ right.nodes ++ [.binary line o left right]

/-- The error that a node deserves by itself: a divisor of zero, or else an exact result
that is out of range. -/
def offence? : Expression → Option RuntimeError
  | .literal _ _ => none
  | .unary line o operand => (o.fault? operand.exact).map (⟨line, ·⟩)
  | .binary line o left right => (o.fault? left.exact right.exact).map (⟨line, ·⟩)

/-- The error of the first node that deserves one. -/
def firstOffence? (e : Expression) : Option RuntimeError := e.nodes.findSome? offence?

end Expression

/-! ## What the operations compute -/

/-- A computation gives the exact result, or the error where there is one to give. -/
def Settles {ε : Type} (error? : Option ε) (exact : ℤ) (computed : Except ε Int64) : Prop :=
  match error? with
  | none => ∃ v, computed = .ok v ∧ v.toInt = exact
  | some error => computed = .error error

namespace Settles

variable {ε : Type} {error? : Option ε} {n : ℤ} {computed : Except ε Int64}

theorem ok (h : Settles none n computed) : ∃ v, computed = .ok v ∧ v.toInt = n := h

theorem error {error : ε} (h : Settles (some error) n computed) : computed = .error error := h

/-- An error found first hides what comes later. -/
theorem bind {later? : Option ε} {m : ℤ} {next : Int64 → Except ε Int64}
    (h : Settles error? n computed)
    (later : ∀ v : Int64, v.toInt = n → Settles later? m (next v)) :
    Settles (error?.or later?) m (computed >>= next) := by
  cases error? with
  | none =>
    obtain ⟨v, rfl, value⟩ := h.ok
    exact later v value
  | some error =>
    rw [h.error]
    rfl

theorem located {fault? : Option Fault} {n : ℤ} {computed : Except Fault Int64}
    (h : Settles fault? n computed) (line : Nat) :
    Settles (fault?.map (⟨line, ·⟩)) n (computed.mapError (⟨line, ·⟩ : Fault → RuntimeError)) := by
  cases fault? with
  | none =>
    obtain ⟨v, rfl, exact⟩ := h.ok
    exact ⟨v, rfl, exact⟩
  | some fault =>
    rw [h.error]
    rfl

end Settles

/-- A computation that never fails gives an integer of the language, so its exact result is
in range. -/
theorem Integer.ok_settles {symbol : Char} {n : ℤ} {v : Int64} (value : v.toInt = n) :
    Settles (if InRange n then none else some (Fault.overflow symbol)) n (.ok v) := by
  rw [if_pos (value ▸ inRange_toInt v)]
  exact ⟨v, rfl, value⟩

theorem Integer.orOverflow_settles (symbol : Char) (n : ℤ) :
    Settles (if InRange n then none else some (.overflow symbol)) n (orOverflow symbol n) := by
  unfold orOverflow
  cases found : ofInt? n with
  | some v => exact ok_settles (ofInt?_eq_some_iff.1 found)
  | none =>
    have outside := ofInt?_eq_none_iff.1 found
    rw [if_neg (by unfold InRange; omega)]
    rfl

theorem Integer.orOverflow_of_inRange (symbol : Char) {n : ℤ} (fits : InRange n) :
    ∃ v, orOverflow symbol n = .ok v ∧ v.toInt = n := by
  have settled := orOverflow_settles symbol n
  rw [if_pos fits] at settled
  exact settled.ok

theorem Integer.orOverflow_of_not_inRange (symbol : Char) {n : ℤ} (outside : ¬ InRange n) :
    orOverflow symbol n = .error (.overflow symbol) := by
  have settled := orOverflow_settles symbol n
  rw [if_neg outside] at settled
  exact settled.error

namespace UnaryOperator

/-- What an operation computes from its operand. -/
def compute : UnaryOperator → Int64 → Except Fault Int64
  | .negate, a => Integer.orOverflow '_' (-a.toInt)
  | .not, a => .ok (Integer.ofBool (a = 0))

theorem compute_settles (o : UnaryOperator) (a : Int64) :
    Settles (o.fault? a.toInt) (o.exact a.toInt) (o.compute a) := by
  cases o with
  | negate => exact Integer.orOverflow_settles _ _
  | not =>
    refine Integer.ok_settles ?_
    rw [Integer.toInt_ofBool]
    simp [exact, ← Int64.toInt_inj]

theorem perform_eq (o : UnaryOperator) : o.primitive.perform =
    (do
      let a ← Action.popInteger o.primitive.symbol
      Action.pushInteger (← Action.lift (o.compute a))) := by
  cases o <;> rfl

/-- With an integer on top, only what is computed from it can fail. -/
theorem perform_integer (o : UnaryOperator) (line : Nat) (a : Int64) (c : Context) :
    Instruction.perform (.op line (.primitive o.primitive))
        { c with stack := .integer a :: c.stack } =
      match o.compute a with
      | .ok v => .ok .proceed { c with stack := .integer v :: c.stack }
      | .error fault => .error fault c := by
  rw [Instruction.perform, Op.perform, perform_eq]
  change (Action.lift (o.compute a) >>= Action.pushInteger >>= fun _ =>
    pure Effect.proceed) c = _
  cases o.compute a <;> rfl

end UnaryOperator

namespace BinaryOperator

/-- What an operation computes from its operands. -/
def compute : BinaryOperator → Int64 → Int64 → Except Fault Int64
  | .add, a, b => Integer.orOverflow '+' (a.toInt + b.toInt)
  | .subtract, a, b => Integer.orOverflow '-' (a.toInt - b.toInt)
  | .multiply, a, b => Integer.orOverflow '*' (a.toInt * b.toInt)
  | .divide, a, b => Integer.floorDiv a b
  | .and, a, b => .ok (a &&& b)
  | .or, a, b => .ok (a ||| b)
  | .greater, a, b => .ok (Integer.ofBool (b < a))
  | .equal, a, b => .ok (Integer.ofBool (a = b))

theorem fault?_of_ne_divide {o : BinaryOperator} (h : o ≠ .divide) (a b : ℤ) :
    o.fault? a b =
      if Integer.InRange (o.exact a b) then none else some (.overflow o.primitive.symbol) :=
  if_neg fun both => h both.1

theorem compute_settles (o : BinaryOperator) (a b : Int64) :
    Settles (o.fault? a.toInt b.toInt) (o.exact a.toInt b.toInt) (o.compute a b) := by
  by_cases quotient : o = .divide
  · subst quotient
    have zero : b.toInt = 0 ↔ b = 0 := by rw [← Int64.toInt_inj, Int64.toInt_zero]
    rw [fault?, compute, Integer.floorDiv_eq]
    by_cases divisor : b = 0
    · rw [if_pos ⟨rfl, zero.2 divisor⟩, if_pos divisor]
      rfl
    · rw [if_neg fun both => divisor (zero.1 both.2), if_neg divisor, Integer.fdiv_eq_floor]
      exact Integer.orOverflow_settles _ _
  · rw [fault?_of_ne_divide quotient]
    cases o with
    | divide => exact absurd rfl quotient
    | add | subtract | multiply => exact Integer.orOverflow_settles _ _
    | and => exact Integer.ok_settles (Integer.toInt_and a b)
    | or => exact Integer.ok_settles (Integer.toInt_or a b)
    | greater =>
      refine Integer.ok_settles ?_
      rw [Integer.toInt_ofBool]
      simp [exact, Int64.lt_iff_toInt_lt]
    | equal =>
      refine Integer.ok_settles ?_
      rw [Integer.toInt_ofBool]
      simp [exact, ← Int64.toInt_inj]

theorem perform_eq (o : BinaryOperator) :
    o.primitive.perform = Action.binary o.primitive.symbol o.compute := by
  cases o <;> rfl

/-- With two integers on top, only what is computed from them can fail. -/
theorem perform_integers (o : BinaryOperator) (line : Nat) (a b : Int64) (c : Context) :
    Instruction.perform (.op line (.primitive o.primitive))
        { c with stack := .integer b :: .integer a :: c.stack } =
      match o.compute a b with
      | .ok v => .ok .proceed { c with stack := .integer v :: c.stack }
      | .error fault => .error fault c := by
  rw [Instruction.perform, Op.perform, perform_eq]
  change (Action.lift (o.compute a b) >>= Action.pushInteger >>= fun _ =>
    pure Effect.proceed) c = _
  cases o.compute a b <;> rfl

end BinaryOperator

namespace Expression

/-- The value of an expression with every operation checked, operands from left to right. -/
def value : Expression → Except RuntimeError Int64
  | .literal _ v => .ok v
  | .unary line o operand => do
    let a ← operand.value
    (o.compute a).mapError (⟨line, ·⟩)
  | .binary line o left right => do
    let a ← left.value
    let b ← right.value
    (o.compute a b).mapError (⟨line, ·⟩)

theorem firstOffence?_unary (line : Nat) (o : UnaryOperator) (operand : Expression) :
    (unary line o operand).firstOffence? =
      operand.firstOffence?.or ((o.fault? operand.exact).map (⟨line, ·⟩)) := by
  simp [firstOffence?, nodes, offence?, List.findSome?_append]

theorem firstOffence?_binary (line : Nat) (o : BinaryOperator) (left right : Expression) :
    (binary line o left right).firstOffence? =
      left.firstOffence?.or (right.firstOffence?.or
        ((o.fault? left.exact right.exact).map (⟨line, ·⟩))) := by
  simp [firstOffence?, nodes, offence?, List.findSome?_append]

/-- The checked value of an expression is the exact one unless a node offends, and then it
is the error of the first such node. -/
theorem value_settles (e : Expression) : Settles e.firstOffence? e.exact e.value := by
  induction e with
  | literal line v => exact ⟨v, rfl, rfl⟩
  | unary line o operand ih =>
    rw [firstOffence?_unary, exact]
    exact ih.bind fun a value => value ▸ (o.compute_settles a).located line
  | binary line o left right ihl ihr =>
    rw [firstOffence?_binary, exact]
    exact ihl.bind fun a value => ihr.bind fun b value' =>
      value ▸ value' ▸ (o.compute_settles a b).located line

end Expression

/-! ## What the machine computes -/

/-- A run pushes a value on the stack of a context and goes on with other code; or it ends
with an error, and then operands that were still waiting are left on that stack. -/
def Delivers (c : Context) (rest : Code) (n : Nat) (value : Except RuntimeError Int64)
    (run : Option Outcome) : Prop :=
  match value with
  | .ok v => run = Machine.run n ⟨{ c with stack := .integer v :: c.stack }, rest, []⟩
  | .error error => ∃ waiting, run = some ⟨.error error, { c with stack := waiting ++ c.stack }⟩

namespace Delivers

variable {c : Context}

/-- A value is delivered above the operands that wait for it, and the run goes on from it. -/
theorem bind (waiting : Stack) {rest behind : Code} {n m : Nat}
    {value : Except RuntimeError Int64} {next : Int64 → Except RuntimeError Int64}
    {run : Option Outcome}
    (h : Delivers { c with stack := waiting ++ c.stack } behind m value run)
    (later : ∀ v, Delivers c rest n (next v)
      (Machine.run m ⟨{ c with stack := .integer v :: (waiting ++ c.stack) }, behind, []⟩)) :
    Delivers c rest n (value >>= next) run := by
  cases value with
  | ok v =>
    have goes_on : run = _ := h
    rw [goes_on]
    exact later v
  | error error =>
    obtain ⟨more, ended⟩ := h
    exact ⟨more ++ waiting, by rw [ended, List.append_assoc]⟩

/-- An operator whose operands are on top delivers what it computes from them. -/
theorem operator (rest : Code) (n : Nat) {d : Context} {line : Nat} {p : Primitive}
    {computed : Except Fault Int64}
    (h : Instruction.perform (.op line (.primitive p)) d =
      match computed with
      | .ok v => .ok .proceed { c with stack := .integer v :: c.stack }
      | .error fault => .error fault c) :
    Delivers c rest n (computed.mapError (⟨line, ·⟩))
      (Machine.run (n + 1) ⟨d, .op line (.primitive p) :: rest, []⟩) := by
  cases computed with
  | ok v => exact Machine.run_proceed h n
  | error fault => exact ⟨[], Machine.run_fault h n⟩

end Delivers

/-- The code of an expression delivers its checked value, whatever is behind it. -/
theorem Expression.run_code (e : Expression) (rest : Code) (n : Nat) (c : Context) :
    Delivers c rest n e.value (Machine.run (e.code.length + n) ⟨c, e.code ++ rest, []⟩) := by
  induction e generalizing rest n c with
  | literal line v =>
    rw [Nat.add_comm]
    exact Machine.run_proceed rfl n
  | unary line o operand ih =>
    have first := ih (.op line (.primitive o.primitive) :: rest) (n + 1) c
    have last (a : Int64) := Delivers.operator rest n (o.perform_integer line a c)
    have whole := Delivers.bind [] first last
    simpa [code, value, Nat.add_assoc, Nat.add_comm 1 n] using whole
  | binary line o left right ihl ihr =>
    have first := ihl (right.code ++ .op line (.primitive o.primitive) :: rest)
      (right.code.length + (n + 1)) c
    -- While the right operand is computed, the left one waits below it.
    have second (a : Int64) := ihr (.op line (.primitive o.primitive) :: rest) (n + 1)
      { c with stack := .integer a :: c.stack }
    have last (a b : Int64) := Delivers.operator rest n (o.perform_integers line a b c)
    have whole := Delivers.bind [] first fun a => Delivers.bind [.integer a] (second a) (last a)
    simpa [code, value, Nat.add_assoc, Nat.add_comm 1 n] using whole

/-- **Code computes its expression exactly.** From any stack, the code of an expression
pushes one integer, the value of the expression in unbounded integers, if no node divides
by zero or has a value out of range. Otherwise it ends with the error of the first node
that does, in the order of the code. Nothing but the stack changes, and nothing of the old
stack is lost. -/
theorem run_expression (e : Expression) (c : Context) {steps : Nat}
    (enough : e.code.length < steps) :
    (e.firstOffence? = none → ∃ v : Int64, v.toInt = e.exact ∧
      c.run steps e.code = some ⟨.ok (), { c with stack := .integer v :: c.stack }⟩) ∧
    (∀ error, e.firstOffence? = some error → ∃ waiting,
      c.run steps e.code = some ⟨.error error, { c with stack := waiting ++ c.stack }⟩) := by
  obtain ⟨spare, rfl⟩ := Nat.exists_eq_add_of_le enough
  have delivered := e.run_code [] (spare + 1) c
  rw [List.append_nil, ← Nat.add_assoc, Nat.add_right_comm] at delivered
  have settled := e.value_settles
  constructor
  · intro sound
    rw [sound] at settled
    obtain ⟨v, computed, exact⟩ := settled.ok
    rw [computed] at delivered
    exact ⟨v, exact, delivered⟩
  · intro error offends
    rw [offends] at settled
    rw [settled.error] at delivered
    exact delivered

/-- The quotient of -7 and 2; and the sum of 5 and a difference, of which the left operand is
out of range before the right one divides by zero. -/
theorem run_expression_first :
    (let e : Expression := .binary 1 .divide (.unary 1 .negate (.literal 1 7)) (.literal 1 2)
     e.code.length < 5 ∧ e.firstOffence? = none ∧ e.exact = -4 ∧
      ∃ v : Int64, v.toInt = e.exact ∧ Context.run 5 e.code { stack := [.name ⟨0⟩] } =
        some ⟨.ok (), { stack := [.integer v, .name ⟨0⟩] }⟩) ∧
    (let e : Expression := .binary 1 .add (.literal 1 5) (.binary 2 .subtract
        (.binary 3 .divide (.literal 3 Int64.minValue) (.literal 3 (-1)))
        (.binary 4 .divide (.literal 4 1) (.literal 4 0)))
     e.code.length < 10 ∧ e.firstOffence? = some ⟨3, .overflow '/'⟩ ∧
      ∃ waiting, Context.run 10 e.code { stack := [.name ⟨0⟩] } =
        some ⟨.error ⟨3, .overflow '/'⟩, { stack := waiting ++ [.name ⟨0⟩] }⟩) := by
  constructor
  · intro e
    have sound : e.firstOffence? = none := by decide +kernel
    exact ⟨by decide, sound, by decide +kernel, (run_expression e _ (by decide)).1 sound⟩
  · intro e
    have offends : e.firstOffence? = some ⟨3, .overflow '/'⟩ := by decide +kernel
    exact ⟨by decide, offends, (run_expression e _ (by decide)).2 _ offends⟩

end FalseLang
