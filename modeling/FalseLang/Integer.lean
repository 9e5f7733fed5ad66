import FalseLang.Fault

/-
  Integers: the 64-bit signed integers of the language and their arithmetic.

  Sums, differences and products are computed with unbounded integers, and then
  asked whether they are integers of the language. `ofInt?_eq_some_iff` and
  `ofInt?_eq_none_iff` say when they are; all range checks are stated through them.
  Division works on words: it rounds towards zero and corrects the result by one.
  `floorDiv_eq` says that this, too, is the exact quotient rounded down, if it is in
  range. Truth values are integers as well: all bits set for true, none for false.
-/

namespace FalseLang.Integer

/-- The integer of the language with the exact value `n`, if there is one. -/
def ofInt? (n : Int) : Option Int64 :=
  if -9223372036854775808 ≤ n ∧ n ≤ 9223372036854775807 then some (Int64.ofInt n) else none

/-- `ofInt?` gives the integer whose value is the number asked for. -/
theorem ofInt?_eq_some_iff {n : Int} {x : Int64} : ofInt? n = some x ↔ x.toInt = n := by
  have low := x.le_toInt
  have high := x.toInt_lt
  unfold ofInt?
  split
  · rename_i h
    have value : (Int64.ofInt n).toInt = n := Int64.toInt_ofInt_of_le (by omega) (by omega)
    rw [Option.some.injEq, ← Int64.toInt_inj, value]
    exact eq_comm
  · simp only [reduceCtorEq, false_iff]
    omega

/-- Every integer of the language is the exact one of its value. -/
@[simp]
theorem ofInt?_toInt (x : Int64) : ofInt? x.toInt = some x := ofInt?_eq_some_iff.2 rfl

/-- Outside the range of 64 bits there is no integer. -/
theorem ofInt?_eq_none_iff {n : Int} :
    ofInt? n = none ↔ n < -9223372036854775808 ∨ 9223372036854775807 < n := by
  unfold ofInt?
  split <;> simp only [reduceCtorEq, false_iff, true_iff] <;> omega

/-- A result that has to be exact: a fault naming the operation if it is out of range. -/
def orOverflow (symbol : Char) (n : Int) : Except Fault Int64 :=
  match ofInt? n with
  | some x => .ok x
  | none => .error (.overflow symbol)

/-! ## Division -/

/-- The quotient rounded towards zero, if there is one. There is none for a divisor of zero,
nor for the least integer by minus one, whose quotient is out of range. -/
def checkedDiv? (a b : Int64) : Option Int64 :=
  if b = 0 ∨ a = Int64.minValue ∧ b = -1 then none else some (a / b)

/-- The quotient rounded down. A divisor of zero is reported before anything else. -/
def floorDiv (a b : Int64) : Except Fault Int64 :=
  if b = 0 then .error .divisionByZero
  else
    match checkedDiv? a b with
    | none => .error (.overflow '/')
    | some quotient =>
      -- Rounding towards zero is rounding up where the signs differ.
      if a % b ≠ 0 ∧ decide (a < 0) ≠ decide (b < 0) then .ok (quotient - 1) else .ok quotient

/-- Rounding down is rounding towards zero, and one less if that has rounded up. -/
theorem fdiv_eq_tdiv_sub {a b : Int} (divisor : b ≠ 0) :
    a.fdiv b = if a.tmod b ≠ 0 ∧ decide (a < 0) ≠ decide (b < 0) then a.tdiv b - 1
      else a.tdiv b := by
  rw [Int.fdiv_eq_tdiv]
  by_cases exact : b ∣ a
  · rw [if_pos exact, if_neg fun h => h.1 (Int.tmod_eq_zero_of_dvd exact), Int.sub_zero]
  · have rest : a.tmod b ≠ 0 := fun none => exact (Int.dvd_of_tmod_eq_zero none)
    rw [if_neg exact]
    rcases Int.lt_or_gt_of_ne divisor with negative | positive
    · have sign : b.sign = -1 := Int.sign_eq_neg_one_of_neg negative
      by_cases low : a < 0 <;> simp [rest, low, negative, sign] <;> omega
    · have sign : b.sign = 1 := Int.sign_eq_one_of_pos positive
      by_cases low : a < 0 <;> simp [rest, low, sign] <;> omega

theorem toInt_ne_zero {n : Int64} (nonzero : n ≠ 0) : n.toInt ≠ 0 := fun zero =>
  nonzero (Int64.toInt_inj.1 (zero.trans Int64.toInt_zero.symm))

/-- A quotient with a remainder is at least one above the least integer. -/
theorem toInt_div_sub_one {a b : Int64} (divisor : b ≠ 0)
    (rest : a.toInt.tmod b.toInt ≠ 0) : (a / b - 1).toInt = a.toInt.tdiv b.toInt - 1 := by
  have low := a.le_toInt
  have high := a.toInt_lt
  have unit : b.toInt.natAbs ≠ 1 := by
    intro unit
    have divides : b.toInt ∣ a.toInt := Int.natAbs_dvd.1 (unit ▸ Int.one_dvd _)
    exact rest (Int.tmod_eq_zero_of_dvd divides)
  have wide : 2 ≤ b.toInt.natAbs := by
    have nonzero := toInt_ne_zero divisor
    omega
  have value : (a / b).toInt = a.toInt.tdiv b.toInt := by
    apply Int64.toInt_div_of_ne_right
    rintro rfl
    exact absurd wide (by decide)
  have half : (a.toInt.tdiv b.toInt).natAbs ≤ a.toInt.natAbs / 2 := by
    rw [Int.natAbs_tdiv]
    exact Nat.div_le_div_left wide (by decide)
  rw [Int64.toInt_sub, value, Int64.toInt_one]
  exact Int.bmod_eq_of_le (by omega) (by omega)

/-- Division computes the exact quotient rounded down, and fails if that is out of range. -/
theorem floorDiv_eq (a b : Int64) : floorDiv a b =
    if b = 0 then .error .divisionByZero else orOverflow '/' (a.toInt.fdiv b.toInt) := by
  unfold floorDiv
  by_cases divisor : b = 0
  · rw [if_pos divisor, if_pos divisor]
  rw [if_neg divisor, if_neg divisor]
  by_cases least : a = Int64.minValue ∧ b = -1
  · obtain ⟨rfl, rfl⟩ := least
    rfl
  have value : (a / b).toInt = a.toInt.tdiv b.toInt := by
    by_cases unit : b = -1
    · exact Int64.toInt_div_of_ne_left a b fun low => least ⟨low, unit⟩
    · exact Int64.toInt_div_of_ne_right a b unit
  have rest : a % b ≠ 0 ↔ a.toInt.tmod b.toInt ≠ 0 := by
    rw [← Int64.toInt_mod, Ne, Ne, ← Int64.toInt_inj, Int64.toInt_zero]
  have checked : checkedDiv? a b = some (a / b) := if_neg fun h => h.elim divisor least
  rw [checked, fdiv_eq_tdiv_sub (toInt_ne_zero divisor)]
  simp only [rest, Int64.lt_iff_toInt_lt, Int64.toInt_zero, orOverflow]
  split
  · next up => rw [← toInt_div_sub_one divisor up.1, ofInt?_toInt]
  · rw [← value, ofInt?_toInt]

/-! ## Truth values, characters and indices -/

/-- The integer that stands for a truth value. -/
def ofBool (b : Bool) : Int64 := if b then -1 else 0

/-- The character with a given code, if the integer is the code of one. Codes
reserved for the halves of surrogate pairs are not. -/
def toChar? (code : Int64) : Option Char :=
  if 0 ≤ code.toInt ∧ code.toNatClampNeg.isValidChar then
    some (Char.ofNat code.toNatClampNeg)
  else none

def ofChar (c : Char) : Int64 := Int64.ofNat c.toNat

/-- The character with a given code, or a fault that names the code. -/
def toChar (code : Int64) : Except Fault Char :=
  match toChar? code with
  | some c => .ok c
  | none => .error (.invalidCharacter code)

/-- The distance from the top that an index stands for on a stack of a given depth. -/
def pickIndex (index : Int64) (depth : Nat) : Except Fault Nat :=
  if 0 ≤ index.toInt ∧ index.toInt < depth then .ok index.toNatClampNeg
  else .error (.indexOutOfRange index depth)

def decimal (n : Int64) : String := toString n.toInt

/-- The value of a sequence of decimal digits. -/
def ofDigits (digits : List Char) : Nat := Nat.ofDigitChars 10 digits 0

end FalseLang.Integer
