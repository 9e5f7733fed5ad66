import FalseLang.Proofs.Code.Joining

/-
  Refusal: the sources that are no programs, and what is reported for each.

  A source is refused in three cases (`Refused`). An integer literal out of range is
  found while the text is read, wherever it stands. A quote mark or a string that
  breaks off is found while the tokens are parsed, and parsing ends at a closing
  bracket that closes nothing; so it is found only if no such bracket stands before
  it. Brackets are counted on lexemes here (`Matched`).

  `parseInside_eq_error_iff` says when parsing refuses tokens, `tokensFrom_eq_error_iff`
  when reading refuses lexemes. A lexeme that breaks off is always the last one
  (`eq_nil_of_isOpen`), which ties the two together (`refused_of_parse`, `parse_of_refused`).
-/

namespace FalseLang

/-! ## Literals in range -/

/-- The lexeme is no integer, or one whose value is an integer of the language. -/
def Lexeme.Fits : Lexeme → Prop
  | .integer digits true => Integer.ofDigits digits ≤ 9223372036854775808
  | .integer digits false => Integer.ofDigits digits ≤ 9223372036854775807
  | _ => True

theorem Lexeme.fits_integer_iff {digits : List Char} {negated : Bool} :
    (Lexeme.integer digits negated).Fits ↔ Integer.ofInt? (if negated then
      -(Integer.ofDigits digits : Int) else Integer.ofDigits digits) ≠ none := by
  rw [Ne, Integer.ofInt?_eq_none_iff]
  cases negated <;> simp only [Fits, Bool.false_eq_true, if_true, if_false] <;> omega

/-- A lexeme can be read exactly if it fits. -/
theorem Lexeme.exists_token_iff {l : Lexeme} : (∃ m, l.token = .ok m) ↔ l.Fits := by
  cases l with
  | integer digits negated =>
    rw [fits_integer_iff]
    simp only [token]
    cases Integer.ofInt? (if negated then -(Integer.ofDigits digits : Int)
      else Integer.ofDigits digits) <;> simp
  | character | danglingQuote | string | unterminatedString | comment | newline | blanks
  | single => simp [token, Fits]

/-- A lexeme that does not fit is an integer, and is reported as it is written. -/
theorem Lexeme.token_of_not_fits {l : Lexeme} (h : ¬ l.Fits) (line : Nat) :
    l.token = .error (.literalTooLarge (String.ofList l.text)) ∧ l.lineFrom line = line := by
  cases l with
  | integer digits negated =>
    rw [fits_integer_iff, Decidable.not_not] at h
    simp [token, h, lineFrom]
  | character | danglingQuote | string | unterminatedString | comment | newline | blanks
  | single => simp [Fits] at h

/-! ## Lexemes and their tokens -/

/-- A lexeme that only the end of the text has ended is the last one. -/
theorem eq_nil_of_isOpen {text : List Char} {before after : List Lexeme} {l : Lexeme}
    (cut : lexemes text = before ++ l :: after) (h : l.isOpen = true) : after = [] := by
  match text with
  | [] =>
    rw [lexemes_nil] at cut
    exact absurd cut (by simp)
  | c :: cs =>
    rw [lexemes_cons] at cut
    cases before with
    | nil =>
      injection cut with first rest
      have nothing := (cut_next c cs).eq_nil_of_isOpen (first ▸ h)
      rw [← rest, nothing, lexemes_nil]
    | cons k before =>
      injection cut with first rest
      exact eq_nil_of_isOpen rest h
termination_by text.length
decreasing_by exact Lexeme.next_length c cs

theorem tokensFrom_lexemes_append {line : Nat} {before : List Lexeme} {ts : List (Located Token)}
    (read : tokensFrom line before = .ok ts) (after : List Lexeme) :
    tokensFrom line (before ++ after) =
      (tokensFrom (lineBehind line before) after).map (ts ++ ·) := by
  induction before generalizing line ts with
  | nil =>
    cases read
    show tokensFrom line after = (tokensFrom line after).map _
    cases tokensFrom line after <;> rfl
  | cons l rest ih =>
    obtain ⟨m, us, token, others, rfl⟩ := tokensFrom_cons_eq_ok_iff.1 read
    rw [lineBehind_cons, List.cons_append]
    cases m with
    | none =>
      rw [tokensFrom_cons_none token, ih others]
      rfl
    | some t =>
      rw [tokensFrom_cons_some token, ih others]
      cases tokensFrom (lineBehind (line + l.newlines) rest) after <;> rfl

theorem fits_of_tokensFrom {line : Nat} {ls : List Lexeme} {ts : List (Located Token)}
    (read : tokensFrom line ls = .ok ts) : ∀ l ∈ ls, l.Fits := by
  induction ls generalizing line ts with
  | nil => simp
  | cons l rest ih =>
    obtain ⟨m, us, token, others, -⟩ := tokensFrom_cons_eq_ok_iff.1 read
    intro k mem
    rcases List.mem_cons.1 mem with rfl | later
    · exact Lexeme.exists_token_iff.1 ⟨m, token⟩
    · exact ih others k later

/-- The lexeme of a token, with the tokens of the lexemes before it. -/
theorem exists_lexeme_at {line : Nat} {ls : List Lexeme} {before after : List (Located Token)}
    {t : Located Token} (read : tokensFrom line ls = .ok (before ++ t :: after)) :
    ∃ first l rest, ls = first ++ l :: rest ∧ tokensFrom line first = .ok before ∧
      l.token = .ok (some t.val) ∧ t.line = l.lineFrom (lineBehind line first) := by
  induction ls generalizing line before with
  | nil =>
    injection read with read
    exact absurd read (by simp)
  | cons l rest ih =>
    obtain ⟨m, us, token, others, split⟩ := tokensFrom_cons_eq_ok_iff.1 read
    have behind {before' : List (Located Token)} (later : us = before' ++ t :: after)
        (here : before = (m.map fun u => ⟨l.lineFrom line, u⟩).toList ++ before') :
        ∃ first k others, l :: rest = first ++ k :: others ∧ tokensFrom line first = .ok before ∧
          k.token = .ok (some t.val) ∧ t.line = k.lineFrom (lineBehind line first) := by
      rw [later] at others
      obtain ⟨first, k, more, rfl, tokens, stands, place⟩ := ih others
      refine ⟨l :: first, k, more, rfl, ?_, stands, by rw [lineBehind_cons]; exact place⟩
      exact tokensFrom_cons_eq_ok_iff.2 ⟨m, before', token, tokens, here⟩
    cases m with
    | none => exact behind split.symm rfl
    | some u =>
      cases before with
      | nil =>
        injection split with same _
        subst same
        exact ⟨[], l, rest, rfl, rfl, token, rfl⟩
      | cons v before =>
        injection split with same later
        subst same
        exact behind later.symm rfl

/-! ## Brackets, counted on lexemes -/

/-- Inside `depth` open quotations, no closing bracket closes more than there are. -/
def Matched (depth : Nat) (ls : List Lexeme) : Prop :=
  ∀ n, (ls.take n).count (.single ']') ≤ depth + (ls.take n).count (.single '[')

theorem matched_cons {depth : Nat} {l : Lexeme} {rest : List Lexeme} :
    Matched depth (l :: rest) ↔
      ∀ n, (rest.take n).count (.single ']') + [l].count (.single ']') ≤
        depth + ((rest.take n).count (.single '[') + [l].count (.single '[')) := by
  constructor
  · intro matched n
    have longer := matched (n + 1)
    rwa [List.take_succ_cons, List.count_cons, List.count_cons, ← List.count_singleton,
      ← List.count_singleton] at longer
  · intro matched n
    cases n with
    | zero => simp
    | succ n =>
      rw [List.take_succ_cons, List.count_cons, List.count_cons, ← List.count_singleton,
        ← List.count_singleton]
      exact matched n

theorem matched_cons_other {depth : Nat} {l : Lexeme} {rest : List Lexeme}
    (opening : l ≠ .single '[') (closing : l ≠ .single ']') :
    Matched depth (l :: rest) ↔ Matched depth rest := by
  rw [matched_cons]
  simp [opening, closing, Matched]

theorem matched_cons_opening {depth : Nat} {rest : List Lexeme} :
    Matched depth (.single '[' :: rest) ↔ Matched (depth + 1) rest := by
  rw [matched_cons]
  refine forall_congr' fun n => ?_
  simp
  omega

theorem matched_cons_closing {depth : Nat} {rest : List Lexeme} :
    Matched (depth + 1) (.single ']' :: rest) ↔ Matched depth rest := by
  rw [matched_cons]
  refine forall_congr' fun n => ?_
  simp
  omega

theorem not_matched_closing {rest : List Lexeme} : ¬ Matched 0 (.single ']' :: rest) := by
  intro matched
  have first := matched 1
  simp at first

/-- The two brackets are characters on their own. -/
theorem Lexeme.eq_of_token_bracket {l : Lexeme} {t : Token} (h : l.token = .ok (some t)) :
    (t = .opening → l = .single '[') ∧ (t = .closing → l = .single ']') := by
  cases l with
  | integer digits negated =>
    simp only [token] at h
    split at h <;> cases h
    simp
  | single c =>
    injection h with h
    unfold Token.ofChar? at h
    split at h
    case h_8 => split at h <;> cases h <;> simp
    all_goals
      cases h
      simp
  | character | danglingQuote | string | unterminatedString => cases h; simp
  | comment | newline | blanks => cases h

theorem passes_other {depth : Nat} {t : Located Token} (opening : t.val ≠ .opening)
    (closing : t.val ≠ .closing) : Passes depth t depth := by
  simp [Passes, overcloses, leftOpen, countOf, opening, closing]

/-- Counting brackets on lexemes and on their tokens is the same. -/
theorem strayFrom_eq_none_iff {line : Nat} {ls : List Lexeme} {ts : List (Located Token)}
    (read : tokensFrom line ls = .ok ts) (depth : Nat) :
    strayFrom depth ts = none ↔ Matched depth ls := by
  induction ls generalizing line ts depth with
  | nil =>
    cases read
    simp [strayFrom, Matched]
  | cons l rest ih =>
    obtain ⟨m, us, token, found, rfl⟩ := tokensFrom_cons_eq_ok_iff.1 read
    cases m with
    | none =>
      have other : l ≠ .single '[' ∧ l ≠ .single ']' := by
        constructor <;> rintro rfl <;> cases token
      rw [matched_cons_other other.1 other.2]
      exact ih found depth
    | some t =>
      rw [Option.map_some, Option.toList_some, List.singleton_append]
      by_cases opening : t = .opening
      · subst opening
        obtain rfl := (Lexeme.eq_of_token_bracket token).1 rfl
        rw [strayFrom_cons (passes_opening depth _), Option.map_eq_none_iff,
          matched_cons_opening]
        exact ih found (depth + 1)
      by_cases closing : t = .closing
      · subst closing
        obtain rfl := (Lexeme.eq_of_token_bracket token).2 rfl
        cases depth with
        | zero => simp [strayFrom_closing, not_matched_closing]
        | succ depth =>
          rw [strayFrom_cons (passes_closing depth _), Option.map_eq_none_iff,
            matched_cons_closing]
          exact ih found depth
      · have other : l ≠ .single '[' ∧ l ≠ .single ']' := by
          constructor
          · rintro rfl
            cases token
            exact opening rfl
          · rintro rfl
            cases token
            exact closing rfl
        rw [strayFrom_cons (passes_other opening closing), Option.map_eq_none_iff,
          matched_cons_other other.1 other.2]
        exact ih found depth

/-! ## Tokens that parsing refuses -/

/-- What a token that breaks off is refused for. -/
def Token.defect? : Token → Option Defect
  | .danglingQuote => some .malformedLiteral
  | .unterminatedString => some .unterminatedString
  | _ => none

/-- Inside `depth` open quotations, the first token that breaks off is that of the error, and
no stray bracket stands before it. -/
def Breaks (depth : Nat) (ts : List (Located Token)) (e : ParseError) : Prop :=
  ∃ before t after, ts = before ++ t :: after ∧ (∀ u ∈ before, u.val.IsWhole) ∧
    strayFrom depth before = none ∧ t.val.defect? = some e.val ∧ e.line = t.line

theorem Breaks.cons {depth next : Nat} {t : Located Token} {ts : List (Located Token)}
    {e : ParseError} (h : Breaks next ts e) (pass : Passes depth t next) (whole : t.val.IsWhole) :
    Breaks depth (t :: ts) e := by
  obtain ⟨before, u, after, rfl, others, closes, defect, place⟩ := h
  refine ⟨t :: before, u, after, rfl, ?_, ?_, defect, place⟩
  · intro v mem
    rcases List.mem_cons.1 mem with rfl | later
    · exact whole
    · exact others v later
  · rw [strayFrom_cons pass, closes]
    rfl

/-- Parsing refuses tokens exactly if one of them breaks off and is reached. -/
theorem parseInside_eq_error_iff {current : List Instruction} {unclosed : List Unclosed}
    {ts : List (Located Token)} {e : ParseError} :
    parseInside current unclosed ts = .error e ↔ Breaks unclosed.length ts e := by
  constructor
  · intro failed
    fun_induction parseInside current unclosed ts with
    | case1 current unclosed => cases failed
    | case2 current unclosed line o rest ih =>
      exact (ih failed).cons (passes_op unclosed.length line o) trivial
    | case3 current unclosed line rest ih =>
      exact (ih failed).cons (passes_opening unclosed.length line) trivial
    | case4 current line rest => cases failed
    | case5 current line rest u outer ih =>
      exact (ih failed).cons (passes_closing outer.length line) trivial
    | case6 current unclosed line rest =>
      cases failed
      exact ⟨[], _, rest, rfl, by simp, rfl, rfl, rfl⟩
    | case7 current unclosed line rest =>
      cases failed
      exact ⟨[], _, rest, rfl, by simp, rfl, rfl, rfl⟩
  · rintro ⟨before, ⟨line, t⟩, after, rfl, whole, closes, defect, place⟩
    obtain ⟨current', unclosed', -, goes_on⟩ := parseInside_append current unclosed whole closes
    obtain ⟨line', d⟩ := e
    cases place
    rw [goes_on]
    cases t with
    | danglingQuote => cases defect; rfl
    | unterminatedString => cases defect; rfl
    | op | opening | closing => cases defect

/-! ## Sources that are refused -/

/-- The three cases in which a source is refused, and the error of each. Where the second or
the third applies, all integers are in range. -/
inductive Refused (source : String) : ParseError → Prop where
  /-- The first integer literal out of range. -/
  | literalTooLarge {before after : List Lexeme} {l : Lexeme}
    (cut : lexemes source.toList = before ++ l :: after) (first : ∀ k ∈ before, k.Fits)
    (large : ¬ l.Fits) :
    Refused source ⟨lineBehind 1 before, .literalTooLarge (String.ofList l.text)⟩
  /-- A lone quote mark at the end. -/
  | malformedLiteral {before : List Lexeme}
    (cut : lexemes source.toList = before ++ [.danglingQuote]) (fit : ∀ k ∈ before, k.Fits)
    (matched : Matched 0 before) : Refused source ⟨lineBehind 1 before, .malformedLiteral⟩
  /-- A string at the end that is never closed. -/
  | unterminatedString {before : List Lexeme} {inside : List Char}
    (cut : lexemes source.toList = before ++ [.unterminatedString inside])
    (fit : ∀ k ∈ before, k.Fits) (matched : Matched 0 before) :
    Refused source ⟨lineBehind 1 before, .unterminatedString⟩

theorem parse_eq_error {source : String} {e : ParseError} : parse source = .error e ↔
    tokenize source = .error e ∨ ∃ ts, tokenize source = .ok ts ∧ Breaks 0 ts e := by
  cases tokens : tokenize source with
  | error d =>
    rw [parse, tokens]
    show Except.error d = .error e ↔ _
    simp
  | ok ts =>
    have inside : parseTokens ts = .error e ↔ Breaks 0 ts e := parseInside_eq_error_iff
    have failed : (parseTokens ts).map Parsed.program = .error e ↔ parseTokens ts = .error e := by
      cases parseTokens ts <;> simp [Except.map]
    rw [parse_of_tokenize tokens, failed, inside]
    simp

/-- Reading fails only at a literal out of range, the first one. -/
theorem exists_large_of_tokenize {source : String} {e : ParseError}
    (failed : tokenize source = .error e) :
    ∃ before l after, lexemes source.toList = before ++ l :: after ∧ (∀ k ∈ before, k.Fits) ∧
      ¬ l.Fits ∧ e = ⟨lineBehind 1 before, .literalTooLarge (String.ofList l.text)⟩ := by
  obtain ⟨line, d⟩ := e
  obtain ⟨before, l, after, cut, readable, token, place⟩ := tokensFrom_eq_error_iff.1 failed
  have large : ¬ l.Fits := by
    intro fits
    obtain ⟨m, read⟩ := Lexeme.exists_token_iff.2 fits
    rw [read] at token
    cases token
  obtain ⟨reported, same⟩ := Lexeme.token_of_not_fits large (lineBehind 1 before)
  rw [reported] at token
  cases token
  rw [same] at place
  cases place
  exact ⟨before, l, after, cut, fun k mem => Lexeme.exists_token_iff.1 (readable k mem), large,
    rfl⟩

/-- A token that breaks off comes from a lexeme that does, and is reported on its line. -/
theorem Lexeme.eq_of_defect {l : Lexeme} {t : Token} {d : Defect} (h : l.token = .ok (some t))
    (defect : t.defect? = some d) :
    l = .danglingQuote ∧ d = .malformedLiteral ∨
      ∃ inside, l = .unterminatedString inside ∧ d = .unterminatedString := by
  cases l with
  | danglingQuote =>
    cases h
    cases defect
    exact Or.inl ⟨rfl, rfl⟩
  | unterminatedString inside =>
    cases h
    cases defect
    exact Or.inr ⟨inside, rfl, rfl⟩
  | integer digits negated =>
    simp only [token] at h
    split at h <;> cases h
    cases defect
  | single c =>
    injection h with h
    have whole := (writable_of_ofChar? h).isWhole
    cases t with
    | danglingQuote | unterminatedString => cases whole
    | op | opening | closing => cases defect
  | character | string =>
    cases h
    cases defect
  | comment | newline | blanks => cases h

/-- What is refused is refused for one of the three reasons. -/
theorem refused_of_parse {source : String} {e : ParseError} (h : parse source = .error e) :
    Refused source e := by
  obtain ⟨line, d⟩ := e
  rcases parse_eq_error.1 h with
    failed | ⟨ts, tokens, before, t, after, rfl, -, closes, defect, place⟩
  · obtain ⟨before, l, after, cut, first, large, same⟩ := exists_large_of_tokenize failed
    cases same
    exact .literalTooLarge cut first large
  · obtain ⟨first, l, rest, cut, read, token, at_line⟩ := exists_lexeme_at tokens
    have fit := fits_of_tokensFrom read
    have matched := (strayFrom_eq_none_iff read 0).1 closes
    rcases Lexeme.eq_of_defect token defect with ⟨rfl, same⟩ | ⟨inside, rfl, same⟩
    · obtain rfl := eq_nil_of_isOpen cut rfl
      have start : line = lineBehind 1 first := place.trans at_line
      cases same
      rw [start]
      exact .malformedLiteral cut fit matched
    · obtain rfl := eq_nil_of_isOpen cut rfl
      have start : line = lineBehind 1 first := place.trans at_line
      cases same
      rw [start]
      exact .unterminatedString cut fit matched

/-- A last lexeme that breaks off is reported, if all before it can be read and matched. -/
theorem parse_of_last {source : String} {before : List Lexeme} {l : Lexeme} {t : Token}
    {d : Defect} (cut : lexemes source.toList = before ++ [l]) (fit : ∀ k ∈ before, k.Fits)
    (matched : Matched 0 before) (token : l.token = .ok (some t)) (defect : t.defect? = some d)
    (at_line : l.lineFrom (lineBehind 1 before) = lineBehind 1 before) :
    parse source = .error ⟨lineBehind 1 before, d⟩ := by
  obtain ⟨ts, read⟩ := exists_tokensFrom (fun k mem => Lexeme.exists_token_iff.2 (fit k mem)) 1
  have last : tokensFrom (lineBehind 1 before) [l] = .ok [⟨lineBehind 1 before, t⟩] := by
    rw [tokensFrom_cons_some token, at_line]
    rfl
  have tokens : tokenize source = .ok (ts ++ [⟨lineBehind 1 before, t⟩]) := by
    rw [tokenize, cut, tokensFrom_lexemes_append read, last]
    rfl
  have whole : ∀ u ∈ ts, u.val.IsWhole := by
    intro u mem
    obtain ⟨k, found, stands⟩ := exists_lexeme_of_mem read mem
    apply isWhole_of_token stands
    -- Only the last lexeme can be an open one.
    obtain ⟨a, b, rfl⟩ := List.append_of_mem found
    cases isOpen : k.isOpen with
    | false => rfl
    | true =>
      rw [List.append_assoc, List.cons_append] at cut
      exact absurd (eq_nil_of_isOpen cut isOpen) (by simp)
  have closes := (strayFrom_eq_none_iff read 0).2 matched
  exact parse_eq_error.2 (Or.inr ⟨_, tokens, ts, _, [], rfl, whole, closes, defect, rfl⟩)

theorem parse_of_refused {source : String} {e : ParseError} (h : Refused source e) :
    parse source = .error e := by
  cases h with
  | @literalTooLarge before after l cut first large =>
    obtain ⟨token, place⟩ := Lexeme.token_of_not_fits large (lineBehind 1 before)
    have readable : ∀ k ∈ before, ∃ m, k.token = .ok m := fun k mem =>
      Lexeme.exists_token_iff.2 (first k mem)
    exact parse_eq_error.2
      (Or.inl (tokensFrom_eq_error_iff.2 ⟨before, l, after, cut, readable, token, place.symm⟩))
  | malformedLiteral cut fit matched => exact parse_of_last cut fit matched rfl rfl rfl
  | unterminatedString cut fit matched => exact parse_of_last cut fit matched rfl rfl rfl

/-- A lexeme that is neither an integer nor a quote mark or string: a bracket or another single
character, a comment or a blank. -/
def Lexeme.isHarmless : Lexeme → Bool
  | .single _ | .comment .. | .newline | .blanks _ => true
  | _ => false

theorem Lexeme.fits_of_isHarmless {l : Lexeme} (h : l.isHarmless = true) : l.Fits := by
  cases l with
  | integer => cases h
  | character | danglingQuote | string | unterminatedString | comment | newline | blanks
  | single => trivial

theorem not_refused_of_isHarmless {source : String}
    (harmless : ∀ l ∈ lexemes source.toList, l.isHarmless = true) (e : ParseError) :
    ¬ Refused source e := by
  intro refused
  cases refused with
  | @literalTooLarge before after l cut first large =>
    exact large (Lexeme.fits_of_isHarmless (harmless l (by simp [cut])))
  | malformedLiteral cut =>
    have last := harmless .danglingQuote (by simp [cut])
    cases last
  | @unterminatedString before inside cut =>
    have last := harmless (.unterminatedString inside) (by simp [cut])
    cases last

/-- **A source is refused in three cases only.** In every other case it is parsed, whatever its
brackets, comments and unknown characters are. -/
theorem parse_refuses_exactly (source : String) :
    (∀ e, parse source = .error e ↔ Refused source e) ∧
    ((∃ code, parse source = .ok code) ↔ ∀ e, ¬ Refused source e) ∧
    ((∀ l ∈ lexemes source.toList, l.isHarmless = true) → ∃ code, parse source = .ok code) := by
  have refused : ∀ e, parse source = .error e ↔ Refused source e :=
    fun e => ⟨refused_of_parse, parse_of_refused⟩
  have accepted : (∃ code, parse source = .ok code) ↔ ∀ e, ¬ Refused source e := by
    simp only [← refused]
    cases parse source <;> simp
  exact ⟨refused, accepted, fun harmless => accepted.2 (not_refused_of_isHarmless harmless)⟩

/-- Stray and open brackets, in a comment too; a lone quote mark in an open quotation on the
second line; and one behind a stray bracket, where it is not looked at. -/
theorem parse_refuses_exactly_brackets :
    (∃ code, parse "]][\x7b]\x7dA[" = .ok code) ∧
    Refused "[[]\n'" ⟨2, .malformedLiteral⟩ ∧ ∀ e, ¬ Refused "[]]'" e := by
  have stray : lexemes "]][\x7b]\x7dA[".toList =
      [.single ']', .single ']', .single '[', .comment [']'] true, .single 'A', .single '['] := by
    with_unfolding_all rfl
  have dangling : parse "[[]\n'" = .error ⟨2, .malformedLiteral⟩ := by with_unfolding_all rfl
  have ended : parse "[]]'" = .ok [.quotation 1 []] := by with_unfolding_all rfl
  refine ⟨(parse_refuses_exactly "]][\x7b]\x7dA[").2.2 (by rw [stray]; decide), ?_, ?_⟩
  · exact ((parse_refuses_exactly "[[]\n'").1 _).1 dangling
  · exact (parse_refuses_exactly "[]]'").2.1.1 ⟨_, ended⟩

end FalseLang
