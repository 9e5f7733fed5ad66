import FalseLang.Proofs.Program.Execution

/-
  Counting: a program that counts down by calling itself, and one that counts up in a
  loop.

  Counting down, each number that is not yet zero takes two levels, one for the call
  and one for the conditional call in it; zero takes one. So the levels that a call
  needs are known before it is made (`Countdown.nests_ok`), and with one less it hits
  the limit, however far it has come by then (`Countdown.nests_limit`).

  Counting up, the loop leaves each number below the next, and what it finds below the
  first stays there. A round adds one number (`Climb.iterates_round`); by induction on
  the rounds that are left, the loop adds all numbers up to the first one that is past
  its bound (`Climb.iterates_ok`). If the bound is the greatest integer there is no such
  number (`Climb.iterates_overflow`).
-/

namespace FalseLang

namespace Integer

/-- What is computed exactly is no overflow. -/
theorem orOverflow_of_toInt {symbol : Char} {v : Int64} {n : ℤ} (h : v.toInt = n) :
    orOverflow symbol n = .ok v := by
  simp [orOverflow, ← h]

/-- There is an integer above one that is not the greatest. -/
theorem exists_next {j : Int64} (below : j.toInt < 9223372036854775807) :
    ∃ i : Int64, i.toInt = j.toInt + 1 := by
  have least := j.le_toInt
  exact ⟨Int64.ofInt (j.toInt + 1), Int64.toInt_ofInt_of_le (by omega) (by omega)⟩

end Integer

/-! ## Counting down -/

namespace Countdown

/-- The variable that holds the quotation. -/
def self : Letter := ⟨2⟩

/-- The code of `1-c;!`. -/
def again : Code :=
  [.op 1 (.integer 1), .op 1 (.primitive .subtract), .op 1 (.letter self), .op 1 .load,
    .op 1 (.execute false)]

/-- The code of `$0>[1-c;!]?`. -/
def round : Code :=
  [.op 1 (.primitive .duplicate), .op 1 (.integer 0), .op 1 (.primitive .greater),
    .quotation 1 again, .op 1 (.execute true)]

/-- The code that stores the round, pushes a number and calls. -/
def program (n : Int64) : Code :=
  [.quotation 1 round, .op 1 (.letter self), .op 1 .store, .op 1 (.integer n),
    .op 1 (.letter self), .op 1 .load, .op 1 (.execute false)]

theorem literal_ofNat {n : Nat} (small : n < 2 ^ 63) :
    Integer.literal (Int64.ofNat n) = toString n := by
  have value : (Int64.ofNat n).toInt = n := Int64.toInt_ofNat_of_lt small
  have positive : ¬ (n : ℤ) < 0 := by omega
  rw [Integer.literal, value, if_neg positive, Int.natAbs_natCast]

theorem parse_source {n : Nat} (small : n < 2 ^ 63) :
    parse ("[$0>[1-c;!]?]c: " ++ toString n ++ "c;!") = .ok (program (Int64.ofNat n)) := by
  have closed : EndsClosed "[$0>[1-c;!]?]c:".toList := by with_unfolding_all rfl
  have separated : Stops (' ' :: ((toString n).toList ++ "c;!".toList)) := by simp [Stops]
  have stops : Stops "c;!".toList := by simp [Stops]
  have whole : ("[$0>[1-c;!]?]c: " ++ toString n ++ "c;!").toList =
      "[$0>[1-c;!]?]c:".toList ++
        ' ' :: ((Integer.literal (Int64.ofNat n)).toList ++ "c;!".toList) := by
    simp [literal_ofNat small]
  rw [← literal_ofNat small] at separated
  rw [parse, tokenize, whole, tokensFrom_append closed separated, tokensFrom_blank rfl,
    tokensFrom_literal _ stops]
  with_unfolding_all rfl

section Runs

variable {c : Context} {s : Stack} {i j : Int64} {o : Outcome}

/-- There is an integer below one that is not zero. -/
theorem exists_toInt_of_succ {n : Nat} (value : j.toInt = (n + 1 : Nat)) :
    ∃ i : Int64, i.toInt = n := by
  have high := j.toInt_lt
  exact ⟨Int64.ofNat n, Int64.toInt_ofNat_of_lt (by omega)⟩

theorem yields_round : (c.on (.integer j :: s)).Yields round o ↔
    if 0 < j.toInt then (c.on (.integer j :: s)).Nests 1 again o
    else o = ⟨.ok (), c.on (.integer j :: s)⟩ := by
  refine Context.yields_duplicate.trans ?_
  refine Context.yields_integer.trans ?_
  refine (Context.yields_binary .greater rfl).trans ?_
  refine Context.yields_quotation.trans ?_
  refine (Context.yields_choice _).trans ?_
  simp [Int64.lt_iff_toInt_lt]

theorem yields_again (bound : c.environment.get self = some (.quotation round))
    (less : i.toInt = j.toInt - 1) :
    (c.on (.integer j :: s)).Yields again o ↔ (c.on (.integer i :: s)).Nests 1 round o := by
  refine Context.yields_integer.trans ?_
  refine (Context.yields_binary .subtract (Integer.orOverflow_of_toInt less)).trans ?_
  refine (Context.yields_load bound).trans ?_
  exact Context.yields_call

/-- A call with `n` on the stack comes back with zero if there are `2n + 1` levels left. -/
theorem nests_ok {n : Nat} (bound : c.environment.get self = some (.quotation round))
    (value : j.toInt = n) (room : c.depth + (2 * n + 1) ≤ c.limit) :
    (c.on (.integer j :: s)).Nests 1 round ⟨.ok (), c.on (.integer 0 :: s)⟩ := by
  -- The context is not fixed: the call for the number below is made two levels deeper.
  induction n generalizing c j with
  | zero =>
    have zero : j = 0 := Int64.toInt_inj.1 value
    apply Context.Nests.of_room (by omega)
    apply yields_round.2
    rw [if_neg (by omega), zero]
    rfl
  | succ n ih =>
    obtain ⟨i, less⟩ := exists_toInt_of_succ value
    have below : i.toInt = j.toInt - 1 := by omega
    apply Context.Nests.of_room (by omega)
    apply yields_round.2
    rw [if_pos (by omega)]
    apply Context.Nests.of_room (by show c.depth + 1 < c.limit; omega)
    apply (yields_again (c := c.inner.inner) bound below).2
    exact ih (c := c.inner.inner) bound less (by show c.depth + 1 + 1 + _ ≤ c.limit; omega)

/-- With fewer levels than that the call hits the limit. -/
theorem nests_limit {n : Nat} (bound : c.environment.get self = some (.quotation round))
    (value : j.toInt = n) (few : c.limit < c.depth + (2 * n + 1)) :
    ∃ d, (c.on (.integer j :: s)).Nests 1 round ⟨.error ⟨1, .recursionLimit c.limit⟩, d⟩ := by
  induction n generalizing c j with
  | zero =>
    have full : c.limit ≤ c.depth := by omega
    exact ⟨_, .refused full⟩
  | succ n ih =>
    obtain ⟨i, less⟩ := exists_toInt_of_succ value
    have below : i.toInt = j.toInt - 1 := by omega
    by_cases full : c.limit ≤ c.depth
    · exact ⟨_, .refused full⟩
    apply Context.Nests.exists_of_room (by omega)
    simp only [yields_round, if_pos (show 0 < j.toInt by omega)]
    -- The call was made, and the conditional call in it is one more level.
    by_cases last : c.limit ≤ c.depth + 1
    · exact ⟨_, .refused last⟩
    apply Context.Nests.exists_of_room (by show c.depth + 1 < c.limit; omega)
    simp only [yields_again (c := c.inner.inner) bound below]
    exact ih (c := c.inner.inner) bound less (by show c.limit < c.depth + 1 + 1 + _; omega)

theorem yields_program : (c.on s).Yields (program j) o ↔
    ((c.binding self (.quotation round)).on (.integer j :: s)).Nests 1 round o := by
  refine Context.yields_quotation.trans ?_
  refine Context.yields_store.trans ?_
  refine Context.yields_integer.trans ?_
  refine (Context.yields_load (Environment.get_store_same _ _ _)).trans ?_
  exact Context.yields_call

theorem interprets_ok {n : Nat} (small : n < 2 ^ 63) (room : c.depth + (2 * n + 1) ≤ c.limit) :
    ∃ d, (c.on s).Interprets ("[$0>[1-c;!]?]c: " ++ toString n ++ "c;!") ⟨.ok (), d⟩ ∧
      d.stack = .integer 0 :: s := by
  have bound := Environment.get_store_same c.environment self (.quotation round)
  have nests := nests_ok (c := c.binding self _) (s := s) bound (Int64.toInt_ofNat_of_lt small) room
  exact ⟨_, (yields_program.2 nests).interprets (parse_source small), rfl⟩

theorem interprets_limit {n : Nat} (small : n < 2 ^ 63)
    (few : c.limit < c.depth + (2 * n + 1)) :
    ∃ d, (c.on s).Interprets ("[$0>[1-c;!]?]c: " ++ toString n ++ "c;!")
      ⟨.error (.runtime ⟨1, .recursionLimit c.limit⟩), d⟩ := by
  have bound := Environment.get_store_same c.environment self (.quotation round)
  obtain ⟨d, nests⟩ :=
    nests_limit (c := c.binding self _) (s := s) bound (Int64.toInt_ofNat_of_lt small) few
  exact ⟨d, (yields_program.2 nests).interprets (parse_source small)⟩

end Runs

end Countdown

/-- **The limit is exact on recursion.** The countdown from `n` needs `2n + 1` levels: with so many
it ends and leaves zero, and with fewer it fails at the limit. -/
theorem countdown_depth {n : Nat} (small : n ≤ 9223372036854775807) (input : Input)
    (output : Output) (m : Nat) :
    let c : Context := { input := input, output := output, limit := m }
    let source := "[$0>[1-c;!]?]c: " ++ toString n ++ "c;!"
    ((∃ d, c.Interprets source ⟨.ok (), d⟩ ∧ d.stack = [.integer 0]) ↔ 2 * n + 1 ≤ m) ∧
      ((∃ d, c.Interprets source ⟨.error (.runtime ⟨1, .recursionLimit m⟩), d⟩) ↔
        m < 2 * n + 1) := by
  intro c source
  have fits : n < 2 ^ 63 := by omega
  have ends (room : 2 * n + 1 ≤ m) :
      ∃ d, c.Interprets source ⟨.ok (), d⟩ ∧ d.stack = [.integer 0] :=
    Countdown.interprets_ok (c := c) (s := []) fits (by show 0 + (2 * n + 1) ≤ m; omega)
  have fails (few : m < 2 * n + 1) :
      ∃ d, c.Interprets source ⟨.error (.runtime ⟨1, .recursionLimit m⟩), d⟩ :=
    Countdown.interprets_limit (c := c) (s := []) fits (by show m < 0 + (2 * n + 1); omega)
  refine ⟨⟨?_, ends⟩, ⟨?_, fails⟩⟩
  · intro ⟨d, ended, _⟩
    by_contra few
    obtain ⟨e, failed⟩ := fails (by omega)
    cases ended.unique failed
  · intro ⟨d, failed⟩
    by_contra room
    obtain ⟨e, ended, _⟩ := ends (by omega)
    cases ended.unique failed

/-- The greatest integer to count down from, with all the levels it needs and with one less. -/
theorem countdown_depth_greatest :
    9223372036854775807 ≤ 9223372036854775807 ∧
      (∃ d, Context.Interprets { limit := 18446744073709551615 }
        ("[$0>[1-c;!]?]c: " ++ toString 9223372036854775807 ++ "c;!") ⟨.ok (), d⟩ ∧
        d.stack = [.integer 0]) ∧
      ∃ d, Context.Interprets { limit := 18446744073709551614 }
        ("[$0>[1-c;!]?]c: " ++ toString 9223372036854775807 ++ "c;!")
        ⟨.error (.runtime ⟨1, .recursionLimit 18446744073709551614⟩), d⟩ :=
  have greatest : 9223372036854775807 ≤ 9223372036854775807 := Nat.le_refl _
  ⟨greatest, (countdown_depth greatest {} {} 18446744073709551615).1.2 (by decide),
    (countdown_depth greatest {} {} 18446744073709551614).2.2 (by decide)⟩

/-! ## Counting up -/

namespace Climb

/-- The code of `$` and the bound and `>~`. -/
def condition (bound : Int64) : Code :=
  [.op 1 (.primitive .duplicate), .op 1 (.integer bound), .op 1 (.primitive .greater),
    .op 1 (.primitive .not)]

/-- The code of `$1+`. -/
def body : Code := [.op 1 (.primitive .duplicate), .op 1 (.integer 1), .op 1 (.primitive .add)]

/-- The code that pushes the first counter and loops. -/
def program (first bound : Int64) : Code :=
  .op 1 (.integer first) :: Code.loopOf 1 1 1 (condition bound) body

theorem parse_source (first bound : Int64) :
    parse (Integer.literal first ++ "[$" ++ Integer.literal bound ++ ">~][$1+]#") =
      .ok (program first bound) := by
  have opens : Stops ('[' :: '$' :: ((Integer.literal bound).toList ++ ">~][$1+]#".toList)) := by
    simp [Stops]
  have stops : Stops ">~][$1+]#".toList := by simp [Stops]
  have whole : (Integer.literal first ++ "[$" ++ Integer.literal bound ++ ">~][$1+]#").toList =
      (Integer.literal first).toList ++
        '[' :: '$' :: ((Integer.literal bound).toList ++ ">~][$1+]#".toList) := by
    simp
  rw [parse, tokenize, whole, tokensFrom_literal _ opens, tokensFrom_plain rfl rfl,
    tokensFrom_plain rfl rfl, tokensFrom_literal _ stops]
  with_unfolding_all rfl

section Runs

variable {c : Context} {s : Stack} {i j bound : Int64} {o : Outcome}

theorem nests_condition (room : c.depth < c.limit) (more : Bool)
    (decides : j.toInt ≤ bound.toInt ↔ more = true) :
    (c.on (.integer j :: s)).Nests 1 (condition bound)
      ⟨.ok (), c.on (.integer (Integer.ofBool more) :: .integer j :: s)⟩ := by
  have negated : more = !decide (bound < j) := by
    simp only [Int64.lt_iff_toInt_lt, ← decide_not, Int.not_lt, decides, Bool.decide_eq_true]
  apply Context.Nests.of_room room
  apply Context.yields_duplicate.2
  apply Context.yields_integer.2
  apply (Context.yields_binary .greater rfl).2
  apply (Context.yields_not _).2
  rw [← negated]
  exact Context.yields_nil.2 rfl

theorem yields_body : (c.on (.integer j :: s)).Yields body o ↔
    (c.on (.integer 1 :: .integer j :: .integer j :: s)).Yields
      [.op 1 (.primitive .add)] o :=
  Context.yields_duplicate.trans Context.yields_integer

/-- A round leaves the counter below the next one. -/
theorem iterates_round (room : c.depth < c.limit) (below : j.toInt ≤ bound.toInt)
    (next : i.toInt = j.toInt + 1)
    (later : (c.on (.integer i :: .integer j :: s)).Iterates 1 (condition bound) body o) :
    (c.on (.integer j :: s)).Iterates 1 (condition bound) body o := by
  apply Context.Iterates.of_round (nests_condition room true (by simpa using below)) ?_ later
  apply Context.Nests.of_room room
  apply yields_body.2
  apply (Context.yields_binary .add (Integer.orOverflow_of_toInt next)).2
  exact Context.yields_nil.2 rfl

theorem iterates_stop (room : c.depth < c.limit) (past : bound.toInt < j.toInt) :
    (c.on (.integer j :: s)).Iterates 1 (condition bound) body
      ⟨.ok (), c.on (.integer j :: s)⟩ := by
  have decides : j.toInt ≤ bound.toInt ↔ false = true := by
    simp only [Bool.false_eq_true, iff_false]
    omega
  exact Context.Iterates.of_stop (nests_condition room false decides)

/-- The loop goes on from a counter up to the first one past the bound. -/
theorem iterates_ok (room : c.depth < c.limit) (low : bound.toInt < 9223372036854775807)
    {rounds : Nat} (left : j.toInt + rounds = bound.toInt + 1) :
    ∃ counters : List Int64,
      counters.map Int64.toInt = (List.range (rounds + 1)).map (fun i : Nat => j.toInt + i) ∧
      (c.on (.integer j :: s)).Iterates 1 (condition bound) body
        ⟨.ok (), c.on ((counters.map Value.integer).reverse ++ s)⟩ := by
  -- The stack is not fixed: for the rounds that are left, the counter is part of what is below.
  induction rounds generalizing j s with
  | zero => exact ⟨[j], by simp, iterates_stop room (by omega)⟩
  | succ rounds ih =>
    obtain ⟨i, next⟩ := Integer.exists_next (j := j) (by omega)
    obtain ⟨counters, values, later⟩ := ih (j := i) (s := .integer j :: s) (by omega)
    refine ⟨j :: counters, ?_, ?_⟩
    · rw [List.map_cons, values, next, List.range_succ_eq_map (n := rounds + 1)]
      simp [Function.comp_def, Int.add_assoc, Int.add_comm 1]
    · apply iterates_round room (by omega) next
      simpa using later

theorem nests_body_overflow (room : c.depth < c.limit) (greatest : j.toInt = 9223372036854775807) :
    ∃ d, (c.on (.integer j :: s)).Nests 1 body ⟨.error ⟨1, .overflow '+'⟩, d⟩ := by
  have outside : ¬ Integer.InRange (j.toInt + (1 : Int64).toInt) := by
    rw [greatest]
    decide
  have fault : BinaryOperator.add.compute j 1 = .error (.overflow '+') :=
    Integer.orOverflow_of_not_inRange _ outside
  apply Context.Nests.exists_of_room room
  exact ⟨_, yields_body.2 ((Context.yields_binary_fault .add fault).2 rfl)⟩

/-- If no integer is past the bound, the last round fails. -/
theorem iterates_overflow (room : c.depth < c.limit)
    (greatest : bound.toInt = 9223372036854775807) {rounds : Nat}
    (left : j.toInt + rounds = bound.toInt) :
    ∃ d, (c.on (.integer j :: s)).Iterates 1 (condition bound) body
      ⟨.error ⟨1, .overflow '+'⟩, d⟩ := by
  induction rounds generalizing j s with
  | zero =>
    have below : j.toInt ≤ bound.toInt ↔ true = true := by
      simp only [iff_true]
      omega
    obtain ⟨d, fails⟩ := nests_body_overflow (s := s) (j := j) room (by omega)
    exact ⟨d, .bodyFails (nests_condition room true below) (Context.popBool_on '#' true) fails⟩
  | succ rounds ih =>
    obtain ⟨i, next⟩ := Integer.exists_next (j := j) (by omega)
    obtain ⟨d, later⟩ := ih (j := i) (s := .integer j :: s) (by omega)
    exact ⟨d, iterates_round room (by omega) next later⟩

theorem yields_program : (c.on s).Yields (program j bound) o ↔
    (c.on (.integer j :: s)).Iterates 1 (condition bound) body o :=
  Context.yields_integer.trans Context.yields_loopOf

end Runs

end Climb

/-- **The loop leaves every counter.** Counting up from `first` it stops at the first number past
the bound and leaves all numbers up to that one. Past the greatest integer there is none, and
the addition fails. -/
theorem counting_loop_leaves_counters (first bound : Int64) (input : Input) (output : Output)
    {m : Nat} (room : 1 ≤ m) :
    let c : Context := { input := input, output := output, limit := m }
    let source := Integer.literal first ++ "[$" ++ Integer.literal bound ++ ">~][$1+]#"
    (bound < first → ∃ d, c.Interprets source ⟨.ok (), d⟩ ∧ d.stack = [.integer first]) ∧
      (first ≤ bound → bound.toInt < 9223372036854775807 →
        ∃ (d : Context) (counters : List Int64), c.Interprets source ⟨.ok (), d⟩ ∧
          d.stack.bottomUp = counters.map Value.integer ∧
          counters.map Int64.toInt =
            (List.range (bound.toInt - first.toInt + 2).toNat).map fun i : Nat =>
              first.toInt + i) ∧
      (bound.toInt = 9223372036854775807 →
        ∃ d, c.Interprets source ⟨.error (.runtime ⟨1, .overflow '+'⟩), d⟩) := by
  intro c source
  have parsed := Climb.parse_source first bound
  refine ⟨?_, ?_, ?_⟩
  · intro past
    have stops := Climb.iterates_stop (c := c) (s := []) room (Int64.lt_iff_toInt_lt.1 past)
    exact ⟨_, (Climb.yields_program.2 stops).interprets parsed, rfl⟩
  · intro below low
    have ordered := Int64.le_iff_toInt_le.1 below
    obtain ⟨rounds, left⟩ : ∃ rounds : Nat, first.toInt + rounds = bound.toInt + 1 :=
      ⟨(bound.toInt + 1 - first.toInt).toNat, by omega⟩
    have count : (bound.toInt - first.toInt + 2).toNat = rounds + 1 := by omega
    obtain ⟨counters, values, iterates⟩ := Climb.iterates_ok (c := c) (s := []) room low left
    refine ⟨_, counters, (Climb.yields_program.2 iterates).interprets parsed, ?_, ?_⟩
    · simp [Stack.bottomUp, Context.on]
    · rw [values, count]
  · intro greatest
    obtain ⟨rounds, left⟩ : ∃ rounds : Nat, first.toInt + rounds = bound.toInt := by
      have high := first.toInt_lt
      exact ⟨(bound.toInt - first.toInt).toNat, by omega⟩
    obtain ⟨d, fails⟩ := Climb.iterates_overflow (c := c) (s := []) room greatest left
    exact ⟨d, (Climb.yields_program.2 fails).interprets parsed⟩

/-- With one level to count on: from a number past the bound, from minus two up to zero, and from
the last integer but one up to the last. -/
theorem counting_loop_leaves_counters_one_level :
    1 ≤ 1 ∧
      (∃ d, Context.Interprets { limit := 1 }
        (Integer.literal 5 ++ "[$" ++ Integer.literal 3 ++ ">~][$1+]#") ⟨.ok (), d⟩ ∧
        d.stack = [.integer 5]) ∧
      (∃ (d : Context) (counters : List Int64), Context.Interprets { limit := 1 }
        (Integer.literal (-2) ++ "[$" ++ Integer.literal 0 ++ ">~][$1+]#") ⟨.ok (), d⟩ ∧
        d.stack.bottomUp = counters.map Value.integer ∧
        counters.map Int64.toInt = [-2, -1, 0, 1]) ∧
      ∃ d, Context.Interprets { limit := 1 }
        (Integer.literal 9223372036854775806 ++ "[$" ++ Integer.literal 9223372036854775807 ++
          ">~][$1+]#") ⟨.error (.runtime ⟨1, .overflow '+'⟩), d⟩ :=
  have room : 1 ≤ 1 := Nat.le_refl 1
  ⟨room, (counting_loop_leaves_counters 5 3 {} {} room).1 (by decide),
    (counting_loop_leaves_counters (-2) 0 {} {} room).2.1 (by decide) (by decide),
    (counting_loop_leaves_counters 9223372036854775806 9223372036854775807 {} {} room).2.2
      (by decide)⟩

end FalseLang
