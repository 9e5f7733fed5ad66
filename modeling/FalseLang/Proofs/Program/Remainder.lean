import FalseLang.Proofs.Program.Execution

/-
  Remainder: a quotation that computes the remainder of a division rounded down.

  It copies both operands, divides the copies, multiplies the quotient by the divisor
  and subtracts the product from the dividend. The remainder itself always fits in 64
  bits, since it lies between zero and the divisor (`Integer.fmod_of_pos`,
  `Integer.fmod_of_neg`). What is computed on the way need not fit. The quotient is out
  of range for one pair of operands only (`Integer.inRange_quotient_iff`). The product
  is further from zero than the dividend if the operands have different signs and the
  division leaves a remainder, and so may be past the end that the dividend is near.

  `remainder_is_floored` says what happens for each pair.
-/

namespace FalseLang

/-! ## Remainders of divisions rounded down -/

namespace Integer

theorem fmod_of_pos (m : ℤ) {n : ℤ} (positive : 0 < n) : 0 ≤ m.fmod n ∧ m.fmod n < n :=
  ⟨Int.fmod_nonneg_of_pos m positive, Int.fmod_lt_of_pos m positive⟩

theorem fmod_of_neg (m : ℤ) {n : ℤ} (negative : n < 0) : n < m.fmod n ∧ m.fmod n ≤ 0 := by
  have mirrored := fmod_of_pos (-m) (n := -n) (by omega)
  rw [Int.neg_fmod_neg] at mirrored
  omega

/-- A remainder has the sign of the divisor and is smaller. -/
theorem fmod_sign_abs (m : ℤ) {n : ℤ} (nonzero : n ≠ 0) :
    (m.fmod n = 0 ∨ (m.fmod n).sign = n.sign) ∧ |m.fmod n| < |n| := by
  rcases lt_or_gt_of_ne nonzero with negative | positive
  · obtain ⟨above, nonpos⟩ := fmod_of_neg m negative
    refine ⟨?_, by rw [abs_of_nonpos nonpos, abs_of_neg negative]; omega⟩
    rcases nonpos.eq_or_lt with zero | below
    · exact Or.inl zero
    · exact Or.inr (by rw [Int.sign_eq_neg_one_of_neg below, Int.sign_eq_neg_one_of_neg negative])
  · obtain ⟨nonneg, below⟩ := fmod_of_pos m positive
    refine ⟨?_, by rw [abs_of_nonneg nonneg, abs_of_pos positive]; exact below⟩
    rcases nonneg.eq_or_lt with zero | above
    · exact Or.inl zero.symm
    · exact Or.inr (by rw [Int.sign_eq_one_of_pos above, Int.sign_eq_one_of_pos positive])

/-- A remainder is between zero and the divisor, so that it fits if the divisor does. -/
theorem inRange_fmod (m : ℤ) {n : ℤ} (nonzero : n ≠ 0) (fits : InRange n) :
    InRange (m.fmod n) := by
  obtain ⟨least, greatest⟩ := fits
  rcases lt_or_gt_of_ne nonzero with negative | positive
  · have between := fmod_of_neg m negative
    exact ⟨by omega, by omega⟩
  · have between := fmod_of_pos m positive
    exact ⟨by omega, by omega⟩

/-- Only the least integer divided by minus one has a quotient that does not fit. -/
theorem inRange_fdiv_iff {m n : ℤ} (fits : InRange m) (nonzero : n ≠ 0) :
    InRange (m.fdiv n) ↔ ¬ (m = -2 ^ 63 ∧ n = -1) := by
  obtain ⟨least, greatest⟩ := fits
  have whole := Int.fmod_add_mul_fdiv m n
  constructor
  · rintro ⟨-, below⟩ ⟨rfl, rfl⟩
    exact absurd below (by decide)
  · intro other
    by_cases mirrored : n = -1
    · subst mirrored
      have between := fmod_of_neg m (n := -1) (by omega)
      exact ⟨by omega, by omega⟩
    · -- Past either end of the range, the product with the divisor is past an end as well, and
      -- the remainder does not bring it back.
      rcases lt_or_gt_of_ne nonzero with negative | positive
      · have between := fmod_of_neg m negative
        have far : n ≤ -2 := by omega
        exact ⟨by nlinarith, by nlinarith⟩
      · have between := fmod_of_pos m positive
        exact ⟨by nlinarith, by nlinarith⟩

/-- What is left of the dividend without the product of the divisor and the quotient. -/
theorem sub_mul_floor (m n : ℤ) : m - n * ⌊(m : ℚ) / n⌋ = m.fmod n := by
  rw [← fdiv_eq_floor, Int.fmod_def]

theorem inRange_quotient_iff (m : Int64) {n : Int64} (nonzero : n ≠ 0) :
    InRange ⌊(m.toInt : ℚ) / n.toInt⌋ ↔ ¬ (m = Int64.minValue ∧ n = -1) := by
  have least : m.toInt = -2 ^ 63 ↔ m = Int64.minValue := by
    rw [← Int64.toInt_minValue, Int64.toInt_inj]
  have minusOne : n.toInt = -1 ↔ n = -1 := by
    rw [← Int64.toInt_inj]
    rfl
  rw [← fdiv_eq_floor, inRange_fdiv_iff (inRange_toInt m) (toInt_ne_zero nonzero), least, minusOne]

end Integer

/-! ## The quotation -/

namespace Remainder

/-- The code of `*-`, which takes the product off the dividend. The lines are given by the places
of the instructions in the whole code. -/
def leftover (line : Nat → Nat) : Code :=
  [.op (line 7) (.primitive .multiply), .op (line 8) (.primitive .subtract)]

/-- The code of `\$@$@\/*-`. -/
def code (line : Nat → Nat) : Code :=
  .op (line 0) (.primitive .swap) :: .op (line 1) (.primitive .duplicate) ::
    .op (line 2) (.primitive .rotate) :: .op (line 3) (.primitive .duplicate) ::
    .op (line 4) (.primitive .rotate) :: .op (line 5) (.primitive .swap) ::
    .op (line 6) (.primitive .divide) :: leftover line

theorem parse_source : parse "\\$@$@\\/*-" = .ok (code fun _ => 1) := by with_unfolding_all rfl

variable {c : Context} {s : Stack} {line : Nat → Nat} {o : Outcome}

/-- Whatever the two values on top are, they are copied in their order. -/
theorem yields_code {v w : Value} : (c.on (v :: w :: s)).Yields (code line) o ↔
    (c.on (v :: w :: v :: w :: s)).Yields
      (.op (line 6) (.primitive .divide) :: leftover line) o := by
  refine Context.yields_swap.trans ?_
  refine Context.yields_duplicate.trans ?_
  refine Context.yields_rotate.trans ?_
  refine Context.yields_duplicate.trans ?_
  refine Context.yields_rotate.trans ?_
  exact Context.yields_swap

variable {m n q : Int64}

/-- A division that fails takes the copies with it, so that the operands are as they were. -/
theorem yields_of_divide_fault {fault : Fault}
    (h : BinaryOperator.divide.compute m n = .error fault) :
    (c.on (.integer n :: .integer m :: s)).Yields (code line) o ↔
      o = ⟨.error ⟨line 6, fault⟩, c.on (.integer n :: .integer m :: s)⟩ :=
  yields_code.trans (Context.yields_binary_fault .divide h)

/-- If the quotient fits, it is there with the divisor and the dividend below it. -/
theorem yields_of_quotient (h : BinaryOperator.divide.compute m n = .ok q) :
    (c.on (.integer n :: .integer m :: s)).Yields (code line) o ↔
      (c.on (.integer q :: .integer n :: .integer m :: s)).Yields (leftover line) o :=
  yields_code.trans (Context.yields_binary .divide h)

theorem exists_quotient (nonzero : n ≠ 0) (other : ¬ (m = Int64.minValue ∧ n = -1)) :
    ∃ q : Int64, BinaryOperator.divide.compute m n = .ok q ∧
      q.toInt = ⌊(m.toInt : ℚ) / n.toInt⌋ := by
  have fine : BinaryOperator.divide.fault? m.toInt n.toInt = none := by
    unfold BinaryOperator.fault?
    rw [if_neg fun both => Integer.toInt_ne_zero nonzero both.2]
    exact if_pos ((Integer.inRange_quotient_iff m nonzero).2 other)
  have settled := BinaryOperator.divide.compute_settles m n
  rw [fine] at settled
  exact settled.ok

theorem yields_of_product_fault (outside : ¬ Integer.InRange (n.toInt * q.toInt)) :
    (c.on (.integer q :: .integer n :: .integer m :: s)).Yields (leftover line) o ↔
      o = ⟨.error ⟨line 7, .overflow '*'⟩, c.on (.integer m :: s)⟩ :=
  Context.yields_binary_fault .multiply (Integer.orOverflow_of_not_inRange _ outside)

/-- If the product fits, and what it leaves of the dividend, only that is left. -/
theorem exists_difference (product : Integer.InRange (n.toInt * q.toInt))
    (difference : Integer.InRange (m.toInt - n.toInt * q.toInt)) :
    ∃ v : Int64, v.toInt = m.toInt - n.toInt * q.toInt ∧
      (c.on (.integer q :: .integer n :: .integer m :: s)).Yields (leftover line)
        ⟨.ok (), c.on (.integer v :: s)⟩ := by
  obtain ⟨p, multiplied, value⟩ := Integer.orOverflow_of_inRange '*' product
  rw [← value] at difference
  obtain ⟨v, subtracted, left⟩ := Integer.orOverflow_of_inRange '-' difference
  refine ⟨v, by rw [left, value], ?_⟩
  apply (Context.yields_binary .multiply multiplied).2
  apply (Context.yields_binary .subtract subtracted).2
  exact Context.yields_nil.2 rfl

/-- The product fits in the two cases in which there is no quotient: it is then zero, or the
dividend itself. -/
theorem divides_of_product (outside : ¬ Integer.InRange (n.toInt * ⌊(m.toInt : ℚ) / n.toInt⌋)) :
    n ≠ 0 ∧ ¬ (m = Int64.minValue ∧ n = -1) := by
  constructor
  · rintro rfl
    exact outside (by simp [Integer.InRange])
  · rintro ⟨rfl, rfl⟩
    exact outside (by decide +kernel)

/-- If the product is out of range, the dividend is left. -/
theorem yields_large (outside : ¬ Integer.InRange (n.toInt * ⌊(m.toInt : ℚ) / n.toInt⌋)) :
    (c.on (.integer n :: .integer m :: s)).Yields (code line)
      ⟨.error ⟨line 7, .overflow '*'⟩, c.on (.integer m :: s)⟩ := by
  obtain ⟨nonzero, other⟩ := divides_of_product outside
  obtain ⟨q, divided, value⟩ := exists_quotient nonzero other
  rw [← value] at outside
  apply (yields_of_quotient divided).2
  exact (yields_of_product_fault outside).2 rfl

/-- If it is in range, the remainder is left. -/
theorem exists_remainder (nonzero : n ≠ 0) (other : ¬ (m = Int64.minValue ∧ n = -1))
    (fits : Integer.InRange (n.toInt * ⌊(m.toInt : ℚ) / n.toInt⌋)) :
    ∃ v : Int64, v.toInt = m.toInt - n.toInt * ⌊(m.toInt : ℚ) / n.toInt⌋ ∧
      (c.on (.integer n :: .integer m :: s)).Yields (code line)
        ⟨.ok (), c.on (.integer v :: s)⟩ := by
  have difference : Integer.InRange (m.toInt - n.toInt * ⌊(m.toInt : ℚ) / n.toInt⌋) := by
    rw [Integer.sub_mul_floor]
    exact Integer.inRange_fmod _ (Integer.toInt_ne_zero nonzero) (Integer.inRange_toInt n)
  obtain ⟨q, divided, value⟩ := exists_quotient nonzero other
  rw [← value] at fits difference ⊢
  obtain ⟨v, left, yields⟩ := exists_difference fits difference
  exact ⟨v, left, (yields_of_quotient divided).2 yields⟩

end Remainder

/-- **The remainder is that of a division rounded down.** With two integers on top, `m` below
`n`, the quotation fails where it divides by zero, where the quotient is past the greatest
integer and where the product of the divisor and the quotient is out of range. Otherwise it
leaves the one value `m - n * ⌊m / n⌋` in their place, and this is zero or has the sign of `n`,
and is smaller than `n` in magnitude. The subtraction never fails. -/
theorem remainder_is_floored (c : Context) (s : Stack) (m n : Int64) (line : Nat → Nat) :
    let start := c.on (.integer n :: .integer m :: s)
    let product := n.toInt * ⌊(m.toInt : ℚ) / n.toInt⌋
    parse "\\$@$@\\/*-" = .ok (Remainder.code fun _ => 1) ∧
    (n = 0 → start.Yields (Remainder.code line) ⟨.error ⟨line 6, .divisionByZero⟩, start⟩) ∧
    (m = Int64.minValue → n = -1 →
      start.Yields (Remainder.code line) ⟨.error ⟨line 6, .overflow '/'⟩, start⟩) ∧
    (¬ Integer.InRange product → start.Yields (Remainder.code line)
      ⟨.error ⟨line 7, .overflow '*'⟩, c.on (.integer m :: s)⟩) ∧
    (n ≠ 0 → ¬ (m = Int64.minValue ∧ n = -1) → Integer.InRange product →
      ∃ v : Int64, v.toInt = m.toInt - product ∧
        start.Yields (Remainder.code line) ⟨.ok (), c.on (.integer v :: s)⟩ ∧
        (v = 0 ∨ v.toInt.sign = n.toInt.sign) ∧ |v.toInt| < |n.toInt|) ∧
    ∀ (k : Nat) (d : Context),
      ¬ start.Yields (Remainder.code line) ⟨.error ⟨k, .overflow '-'⟩, d⟩ := by
  intro start product
  have zero (divisor : n = 0) :
      start.Yields (Remainder.code line) ⟨.error ⟨line 6, .divisionByZero⟩, start⟩ :=
    (Remainder.yields_of_divide_fault (if_pos divisor)).2 rfl
  have least (dividend : m = Int64.minValue) (divisor : n = -1) :
      start.Yields (Remainder.code line) ⟨.error ⟨line 6, .overflow '/'⟩, start⟩ := by
    have fault : BinaryOperator.divide.compute m n = .error (.overflow '/') := by
      rw [dividend, divisor]
      rfl
    exact (Remainder.yields_of_divide_fault fault).2 rfl
  refine ⟨Remainder.parse_source, zero, least, Remainder.yields_large, ?_, ?_⟩
  · intro nonzero other fits
    obtain ⟨v, value, yields⟩ := Remainder.exists_remainder nonzero other fits
    have remainder := Integer.fmod_sign_abs m.toInt (Integer.toInt_ne_zero nonzero)
    rw [← Integer.sub_mul_floor, ← value, ← Int64.toInt_zero, Int64.toInt_inj] at remainder
    exact ⟨v, value, yields, remainder⟩
  · intro k d fails
    -- There is one outcome, and in each of the four cases it is another.
    by_cases divisor : n = 0
    · cases (zero divisor).unique fails
    by_cases both : m = Int64.minValue ∧ n = -1
    · cases (least both.1 both.2).unique fails
    by_cases fits : Integer.InRange product
    · obtain ⟨v, -, yields⟩ := Remainder.exists_remainder divisor both fits
      cases yields.unique fails
    · cases (Remainder.yields_large fits).unique fails

/-- All four ways: a divisor of zero; the least integer, by minus one and by three, of which the
second product is the least integer less one; and minus seven by three, which leaves two. -/
theorem remainder_is_floored_least :
    Context.Yields { stack := [.integer 0, .integer 7] } (Remainder.code fun _ => 1)
        ⟨.error ⟨1, .divisionByZero⟩, { stack := [.integer 0, .integer 7] }⟩ ∧
      Context.Yields { stack := [.integer (-1), .integer Int64.minValue] }
        (Remainder.code fun _ => 1)
        ⟨.error ⟨1, .overflow '/'⟩, { stack := [.integer (-1), .integer Int64.minValue] }⟩ ∧
      (¬ Integer.InRange (3 * ⌊((-2 ^ 63 : ℤ) : ℚ) / (3 : ℤ)⌋) ∧
        Context.Yields { stack := [.integer 3, .integer Int64.minValue] }
          (Remainder.code fun _ => 1)
          ⟨.error ⟨1, .overflow '*'⟩, { stack := [.integer Int64.minValue] }⟩) ∧
      (Integer.InRange (3 * ⌊((-7 : ℤ) : ℚ) / (3 : ℤ)⌋) ∧
        Context.Yields { stack := [.integer 3, .integer (-7), .name ⟨0⟩] }
          (Remainder.code fun _ => 1) ⟨.ok (), { stack := [.integer 2, .name ⟨0⟩] }⟩) := by
  have outside : ¬ Integer.InRange (3 * ⌊((-2 ^ 63 : ℤ) : ℚ) / (3 : ℤ)⌋) := by decide +kernel
  have inside : Integer.InRange (3 * ⌊((-7 : ℤ) : ℚ) / (3 : ℤ)⌋) := by decide +kernel
  obtain ⟨-, zero, -⟩ := remainder_is_floored {} [] 7 0 fun _ => 1
  obtain ⟨-, -, least, -⟩ := remainder_is_floored {} [] Int64.minValue (-1) fun _ => 1
  obtain ⟨-, -, -, large, -⟩ := remainder_is_floored {} [] Int64.minValue 3 fun _ => 1
  obtain ⟨-, -, -, -, ends, -⟩ := remainder_is_floored {} [.name ⟨0⟩] (-7) 3 fun _ => 1
  obtain ⟨v, value, yields, -⟩ := ends (by decide) (by decide) inside
  have two : v = 2 := Int64.toInt_inj.1 (value.trans (by decide +kernel))
  rw [two] at yields
  exact ⟨zero rfl, least rfl rfl, ⟨outside, large outside⟩, inside, yields⟩

end FalseLang
