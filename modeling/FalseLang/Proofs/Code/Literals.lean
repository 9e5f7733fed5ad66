import FalseLang.Proofs.Code.Lines
import FalseLang.Proofs.Token.Pattern
import Mathlib.Data.Nat.Digits.Defs

/-
  Literals: the integer that a sequence of digits stands for.

  The value of digits is the sum of what they count for in their places
  (`decimalValue`); that is also what reading collects from left to right
  (`Integer.ofDigits_eq`). Reading computes without a bound and asks at the end
  whether the value is an integer of the language.

  A second reading, `readLiteral?`, computes in words throughout. Digits alone are
  collected in 64 bits. Digits with a sign are collected in 128 bits, because the
  least integer has no counterpart in 64, negated there and narrowed at the end. There
  is no value as soon as one intermediate result does not fit. Collected digits never
  get smaller, so what does not fit halfway does not fit at the end
  (`readDigits?_eq`), and the two readings agree (`readLiteral?_eq_some_iff`).
-/

namespace FalseLang

namespace Integer

/-! ## The value of digits -/

/-- The value of decimal digits, each counted by its place. -/
def decimalValue (digits : List Char) : ℕ :=
  Nat.ofDigits 10 (digits.reverse.map fun d => d.toNat - '0'.toNat)

theorem decimalValue_cons (d : Char) (rest : List Char) :
    decimalValue (d :: rest) = 10 ^ rest.length * (d.toNat - '0'.toNat) + decimalValue rest := by
  simp [decimalValue, Nat.ofDigits_append, Nat.add_comm]

/-- Digits that are collected from left to right have the value of their places. -/
theorem ofDigits_eq (digits : List Char) : ofDigits digits = decimalValue digits := by
  induction digits with
  | nil => simp [ofDigits, decimalValue]
  | cons d rest ih =>
    calc ofDigits (d :: rest)
        = Nat.ofDigitChars 10 rest (10 * 0 + (d.toNat - '0'.toNat)) := Nat.ofDigitChars_cons
      _ = 10 ^ rest.length * (d.toNat - '0'.toNat) + ofDigits rest := by
          rw [Nat.mul_zero, Nat.zero_add, Nat.ofDigitChars_eq_ofDigitChars_zero]
          rfl
      _ = decimalValue (d :: rest) := by rw [ih, decimalValue_cons]

/-! ## Reading in words -/

/-- The number, if signed words of so many bits hold it. -/
def word? (bits : ℕ) (n : ℤ) : Option ℤ :=
  if -2 ^ (bits - 1) ≤ n ∧ n < 2 ^ (bits - 1) then some n else none

/-- Collects digits behind those already collected, in words of so many bits: ten times as much,
and then the digit. -/
def readDigits? (bits : ℕ) (sofar : ℤ) : List Char → Option ℤ
  | [] => some sofar
  | d :: rest => do
    let tens ← word? bits (sofar * 10)
    let next ← word? bits (tens + (d.toNat - '0'.toNat : ℕ))
    readDigits? bits next rest

/-- The value of a literal, computed in words: in 64 bits without a sign, and with one in 128
bits up to the end. -/
def readLiteral? (digits : List Char) (negated : Bool) : Option ℤ :=
  if negated then do
    let magnitude ← readDigits? 128 0 digits
    let opposite ← word? 128 (-magnitude)
    word? 64 opposite
  else readDigits? 64 0 digits

theorem word?_eq_some_iff {bits : ℕ} {n m : ℤ} :
    word? bits n = some m ↔ (-2 ^ (bits - 1) ≤ n ∧ n < 2 ^ (bits - 1)) ∧ n = m := by
  unfold word?
  split <;> simp [*]

theorem word?_natCast (bits n : ℕ) :
    word? bits n = if n < 2 ^ (bits - 1) then some (n : ℤ) else none := by
  have low : -2 ^ (bits - 1) ≤ (n : ℤ) := by
    have positive : (0 : ℤ) ≤ 2 ^ (bits - 1) := by positivity
    omega
  simp only [word?, low, true_and]
  congr 1
  norm_cast

/-- Digits that are added do not make the value smaller. -/
theorem le_ofDigitChars (digits : List Char) (sofar : ℕ) :
    sofar ≤ Nat.ofDigitChars 10 digits sofar := by
  have power : 1 ≤ 10 ^ digits.length := Nat.one_le_pow _ _ (by decide)
  have scaled : 1 * sofar ≤ 10 ^ digits.length * sofar := Nat.mul_le_mul_right sofar power
  rw [Nat.ofDigitChars_eq_ofDigitChars_zero]
  omega

/-- Digits can be collected in words exactly if all of them together fit. -/
theorem readDigits?_eq {bits sofar : ℕ} (digits : List Char) (room : sofar < 2 ^ (bits - 1)) :
    readDigits? bits sofar digits = word? bits (Nat.ofDigitChars 10 digits sofar) := by
  induction digits generalizing sofar with
  | nil => rw [readDigits?, Nat.ofDigitChars_nil, word?_natCast, if_pos room]
  | cons d rest ih =>
    have tens : (sofar : ℤ) * 10 = (sofar * 10 : ℕ) := by push_cast; ring
    have next : ((sofar * 10 : ℕ) : ℤ) + (d.toNat - '0'.toNat : ℕ) =
        (10 * sofar + (d.toNat - '0'.toNat) : ℕ) := by push_cast; ring
    rw [readDigits?, Nat.ofDigitChars_cons, tens]
    by_cases fits : 10 * sofar + (d.toNat - '0'.toNat) < 2 ^ (bits - 1)
    · have smaller : sofar * 10 < 2 ^ (bits - 1) := by omega
      rw [← ih fits, word?_natCast, if_pos smaller, Option.bind_eq_bind, Option.bind_some, next,
        word?_natCast, if_pos fits, Option.bind_some]
    · -- Whichever of the two results is too large, the value of all digits is so too.
      have larger := le_ofDigitChars rest (10 * sofar + (d.toNat - '0'.toNat))
      rw [word?_natCast (n := Nat.ofDigitChars 10 rest _), if_neg (by omega), word?_natCast]
      split
      · rw [Option.bind_eq_bind, Option.bind_some, next, word?_natCast, if_neg fits]
        rfl
      · rfl

/-- The magnitudes that a literal can have. With the sign there is one more. -/
def Holds (negated : Bool) (magnitude : ℕ) : Prop :=
  magnitude ≤ if negated then 2 ^ 63 else 2 ^ 63 - 1

/-- The value of a literal with some magnitude. -/
def signed (negated : Bool) (magnitude : ℕ) : ℤ := if negated then -magnitude else magnitude

/-- Words of 128 bits and their narrowing lose no literal and let none pass. -/
theorem readLiteral?_eq_some_iff {digits : List Char} {negated : Bool} {n : ℤ} :
    readLiteral? digits negated = some n ↔
      Holds negated (decimalValue digits) ∧ n = signed negated (decimalValue digits) := by
  have collected (bits : ℕ) : readDigits? bits 0 digits = word? bits (decimalValue digits) := by
    rw [← ofDigits_eq]
    exact_mod_cast readDigits?_eq digits (by positivity)
  unfold readLiteral? Holds signed
  rw [collected, collected]
  generalize decimalValue digits = v
  cases negated with
  | false =>
    simp only [Bool.false_eq_true, if_false, word?_eq_some_iff]
    omega
  | true =>
    simp only [if_true, Option.bind_eq_bind, Option.bind_eq_some_iff, word?_eq_some_iff]
    constructor
    · intro ⟨magnitude, ⟨_, same⟩, opposite, ⟨_, negative⟩, narrow, value⟩
      omega
    · intro ⟨fits, value⟩
      exact ⟨v, by omega, -v, by omega, by omega⟩

end Integer

/-! ## Literals in a source -/

theorem Lexeme.fits_iff_holds {digits : List Char} {negated : Bool} :
    (Lexeme.integer digits negated).Fits ↔ Integer.Holds negated (Integer.decimalValue digits) := by
  cases negated <;> simp [Fits, Integer.Holds, Integer.ofDigits_eq]

/-- A literal that holds its value stands for exactly this value. -/
theorem Lexeme.token_of_holds {digits : List Char} {negated : Bool}
    (h : Integer.Holds negated (Integer.decimalValue digits)) :
    ∃ n : Int64, n.toInt = Integer.signed negated (Integer.decimalValue digits) ∧
      (Lexeme.integer digits negated).token = .ok (some (.op (.integer n))) := by
  have found := fits_integer_iff.1 (fits_iff_holds.2 h)
  obtain ⟨n, value⟩ := Option.ne_none_iff_exists'.1 found
  refine ⟨n, ?_, by simp only [token, value]⟩
  rw [Integer.ofInt?_eq_some_iff.1 value, Integer.signed, Integer.ofDigits_eq]

/-- Lexemes are read one after the other, and the first that cannot be read decides. -/
theorem tokensFrom_append_lexemes (line : Nat) (before after : List Lexeme) :
    tokensFrom line (before ++ after) = do
      let earlier ← tokensFrom line before
      let later ← tokensFrom (lineBehind line before) after
      return earlier ++ later := by
  cases read : tokensFrom line before with
  | ok earlier =>
    rw [tokensFrom_lexemes_append read]
    cases tokensFrom (lineBehind line before) after <;> rfl
  | error e =>
    obtain ⟨first, l, rest, rfl, readable, stops, place⟩ := tokensFrom_eq_error_iff.1 read
    apply tokensFrom_eq_error_iff.2
    exact ⟨first, l, rest ++ after, by simp, readable, stops, place⟩

/-- The text of a lexeme is cut into this lexeme. -/
theorem Lexeme.Formed.lexemes_text {l : Lexeme} (h : l.Formed) : lexemes l.text = [l] := by
  obtain ⟨c, cs, text⟩ := List.exists_cons_of_ne_nil h.text_ne_nil
  have cut := h.cut
  rw [text] at cut ⊢
  rw [lexemes_cons, cut.next_eq, lexemes_nil]

section Source

variable {source : String} {before after : List Lexeme} {digits : List Char} {negated : Bool}
  (all : ∀ d ∈ digits, d.isDigit = true)
  (cut : lexemes source.toList = before ++ .integer digits negated :: after)

include all cut in
theorem tokenize_of_holds (h : Integer.Holds negated (Integer.decimalValue digits)) :
    ∃ n : Int64, n.toInt = Integer.signed negated (Integer.decimalValue digits) ∧
      tokenize source = do
        let earlier ← tokensFrom 1 before
        let later ← tokensFrom (lineBehind 1 before) after
        return earlier ++ ⟨lineBehind 1 before, .op (.integer n)⟩ :: later := by
  obtain ⟨n, value, token⟩ := Lexeme.token_of_holds h
  refine ⟨n, value, ?_⟩
  rw [tokenize, cut, tokensFrom_append_lexemes, tokensFrom_cons_some token,
    Lexeme.newlines_integer all, Nat.add_zero]
  cases tokensFrom 1 before with
  | error e => rfl
  | ok earlier => cases tokensFrom (lineBehind 1 before) after <;> rfl

include cut in
theorem tokenize_of_not_holds (h : ¬ Integer.Holds negated (Integer.decimalValue digits)) :
    tokenize source = (do
      let _ ← tokensFrom 1 before
      .error ⟨lineBehind 1 before,
        .literalTooLarge (String.ofList (Lexeme.text (.integer digits negated)))⟩) := by
  have large : ¬ (Lexeme.integer digits negated).Fits := fun fits =>
    h (Lexeme.fits_iff_holds.1 fits)
  obtain ⟨token, place⟩ := Lexeme.token_of_not_fits large (lineBehind 1 before)
  rw [tokenize, cut, tokensFrom_append_lexemes, tokensFrom_cons_error token, place]
  cases tokensFrom 1 before <;> rfl

end Source

/-- **A literal has its exact decimal value.** Digits by themselves are read as the integer of
their value if there is one, and otherwise refused as they are written; with the sign behind
them, which is part of the literal, the value is negated. The same holds of digits that stand
as a lexeme anywhere in a source that can be read up to there. Computed in words, with 128 bits
for a literal with the sign, the value is the same, however many digits there are. -/
theorem literal_is_exact (digits : List Char) (nonempty : digits ≠ [])
    (all : ∀ d ∈ digits, d.isDigit = true) (negated : Bool) :
    let magnitude := Integer.decimalValue digits
    let text := if negated then digits ++ ['_'] else digits
    let fits := magnitude ≤ if negated then 2 ^ 63 else 2 ^ 63 - 1
    let value : ℤ := if negated then -magnitude else magnitude
    ((∃ n : Int64, n.toInt = value ∧
      tokenize (String.ofList text) = .ok [⟨1, .op (.integer n)⟩]) ↔ fits) ∧
    (tokenize (String.ofList text) = .error ⟨1, .literalTooLarge (String.ofList text)⟩ ↔ ¬ fits) ∧
    (∀ (source : String) (before after : List Lexeme),
      lexemes source.toList = before ++ .integer digits negated :: after →
      (fits → ∃ n : Int64, n.toInt = value ∧ tokenize source = do
        let earlier ← tokensFrom 1 before
        let later ← tokensFrom (lineBehind 1 before) after
        return earlier ++ ⟨lineBehind 1 before, .op (.integer n)⟩ :: later) ∧
      (¬ fits → tokenize source = do
        let _ ← tokensFrom 1 before
        .error ⟨lineBehind 1 before, .literalTooLarge (String.ofList text)⟩)) ∧
    (∀ n, Integer.readLiteral? digits negated = some n ↔ fits ∧ n = value) := by
  intro magnitude text fits value
  have formed : (Lexeme.integer digits negated).Formed := ⟨nonempty, all⟩
  have alone : lexemes (String.ofList text).toList = [] ++ .integer digits negated :: [] := by
    rw [String.toList_ofList]
    exact formed.lexemes_text
  have accepted : fits → ∃ n : Int64, n.toInt = value ∧
      tokenize (String.ofList text) = .ok [⟨1, .op (.integer n)⟩] := tokenize_of_holds all alone
  have refused : ¬ fits →
      tokenize (String.ofList text) = .error ⟨1, .literalTooLarge (String.ofList text)⟩ :=
    tokenize_of_not_holds alone
  refine ⟨⟨?_, accepted⟩, ⟨?_, refused⟩, ?_, fun n => Integer.readLiteral?_eq_some_iff⟩
  · intro ⟨n, _, read⟩
    by_contra large
    rw [refused large] at read
    cases read
  · intro failed small
    obtain ⟨n, _, read⟩ := accepted small
    rw [read] at failed
    cases failed
  · intro source before after cut
    exact ⟨tokenize_of_holds all cut, tokenize_of_not_holds cut⟩

/-- Seven behind sixty zeros; the least integer, whose digits alone are refused behind a quoted
digit on the second line; and with a sign the number that is one again in words of 128 bits. -/
theorem literal_is_exact_wide :
    (∃ n : Int64, n.toInt = 7 ∧ tokenize (String.ofList (List.replicate 60 '0' ++ ['7'])) =
      .ok [⟨1, .op (.integer n)⟩]) ∧
    (∃ n : Int64, n.toInt = -9223372036854775808 ∧
      tokenize "9223372036854775808_" = .ok [⟨1, .op (.integer n)⟩]) ∧
    tokenize "\n'59223372036854775808]_" =
      .error ⟨2, .literalTooLarge "9223372036854775808"⟩ ∧
    tokenize "340282366920938463463374607431768211457_" =
      .error ⟨1, .literalTooLarge "340282366920938463463374607431768211457_"⟩ := by
  obtain ⟨seven, -, -, -⟩ := literal_is_exact (List.replicate 60 '0' ++ ['7']) (by decide)
    (List.all_eq_true.1 (by decide)) false
  obtain ⟨least, -, -, -⟩ := literal_is_exact "9223372036854775808".toList (by decide)
    (List.all_eq_true.1 (by decide)) true
  obtain ⟨-, -, inside, -⟩ := literal_is_exact "9223372036854775808".toList (by decide)
    (List.all_eq_true.1 (by decide)) false
  obtain ⟨-, wrapped, -, -⟩ := literal_is_exact "340282366920938463463374607431768211457".toList
    (by decide) (List.all_eq_true.1 (by decide)) true
  have cut : lexemes "\n'59223372036854775808]_".toList = [.newline, .character '5'] ++
      .integer "9223372036854775808".toList false :: [.single ']', .single '_'] := by
    with_unfolding_all rfl
  refine ⟨?_, ?_, ?_, ?_⟩
  · exact seven.2 (by decide +kernel)
  · exact least.2 (by decide +kernel)
  · exact (inside _ _ _ cut).2 (by decide +kernel)
  · exact wrapped.2 (by decide +kernel)

end FalseLang
