import FalseLang.Proofs.Code.RoundTrip
import FalseLang.Proofs.Token.Separator

/-
  Joining: two sources with a separator between them parse to the one program
  behind the other.

  Reading tokens goes on behind a separator as if the text began there
  (`tokenize_separated`). Parsing does not, if the first source leaves a quotation
  open or closes one too many; with balanced brackets it is back at the outermost
  level (`parseInside_append`), and what it has collected there stays before all
  that follows (`Above.parseInside_eq`).
-/

namespace FalseLang

/-! ## Tokens of texts that do not end inside a lexeme -/

/-- No lexeme of such a text is open, not only the last one. -/
theorem isOpen_of_mem_lexemes {text : List Char} (closed : EndsClosed text) {l : Lexeme}
    (mem : l ∈ lexemes text) : l.isOpen = false := by
  match text with
  | [] => simp at mem
  | c :: cs =>
    obtain ⟨first, others⟩ := (endsClosed_cons (cut_next c cs)).1 closed
    rw [lexemes_cons, List.mem_cons] at mem
    rcases mem with rfl | later
    · exact first
    · exact isOpen_of_mem_lexemes others later
termination_by text.length
decreasing_by exact Lexeme.next_length c cs

/-- A token that parsing does not refuse. -/
def Token.IsWhole : Token → Prop
  | .danglingQuote | .unterminatedString => False
  | _ => True

theorem Token.Writable.isWhole {t : Token} (h : t.Writable) : t.IsWhole := by
  cases t with
  | op | opening | closing => trivial
  | danglingQuote | unterminatedString => cases h

theorem isWhole_of_token {l : Lexeme} {t : Token} (h : l.token = .ok (some t))
    (closed : l.isOpen = false) : t.IsWhole := by
  cases l with
  | integer digits negated =>
    simp only [Lexeme.token] at h
    split at h <;> cases h
    trivial
  | character c => cases h; trivial
  | string text => cases h; trivial
  | single c =>
    injection h with h
    exact (writable_of_ofChar? h).isWhole
  | danglingQuote => cases closed
  | unterminatedString text => cases closed
  | comment text closed => cases h
  | newline => cases h
  | blanks run => cases h

theorem isWhole_of_tokenize {source : String} {ts : List (Located Token)}
    (closed : EndsClosed source.toList) (h : tokenize source = .ok ts) :
    ∀ t ∈ ts, t.val.IsWhole := by
  intro t mem
  obtain ⟨l, found, stands⟩ := exists_lexeme_of_mem h mem
  exact isWhole_of_token stands (isOpen_of_mem_lexemes closed found)

/-! ## Balanced brackets -/

/-- No closing bracket closes nothing, and no quotation is left open. -/
def Balanced (ts : List (Located Token)) : Prop :=
  strayFrom 0 ts = none ∧ countOf .opening ts = countOf .closing ts

instance (ts : List (Located Token)) : Decidable (Balanced ts) :=
  inferInstanceAs
    (Decidable (strayFrom 0 ts = none ∧ countOf .opening ts = countOf .closing ts))

/-- Behind tokens without a stray bracket, parsing goes on inside the quotations that they
leave open. -/
theorem parseInside_append (current : List Instruction) (unclosed : List Unclosed)
    {ts : List (Located Token)} (whole : ∀ t ∈ ts, t.val.IsWhole)
    (closes : strayFrom unclosed.length ts = none) :
    ∃ current' unclosed', unclosed'.length = leftOpen unclosed.length ts ∧
      ∀ more, parseInside current unclosed (ts ++ more) = parseInside current' unclosed' more := by
  induction ts generalizing current unclosed with
  | nil => exact ⟨current, unclosed, rfl, fun more => rfl⟩
  | cons t rest ih =>
    have others : ∀ t ∈ rest, t.val.IsWhole := fun u mem => whole u (List.mem_cons_of_mem t mem)
    have first := whole t List.mem_cons_self
    obtain ⟨line, val⟩ := t
    cases val with
    | op o =>
      have pass := passes_op unclosed.length line o
      rw [strayFrom_cons pass, Option.map_eq_none_iff] at closes
      rw [leftOpen_cons pass]
      exact ih (.op line o :: current) unclosed others closes
    | opening =>
      have pass := passes_opening unclosed.length line
      rw [strayFrom_cons pass, Option.map_eq_none_iff] at closes
      rw [leftOpen_cons pass]
      exact ih [] (⟨line, current⟩ :: unclosed) others closes
    | closing =>
      cases unclosed with
      | nil =>
        rw [List.length_nil, strayFrom_closing] at closes
        cases closes
      | cons u outer =>
        have pass := passes_closing outer.length line
        rw [List.length_cons, strayFrom_cons pass, Option.map_eq_none_iff] at closes
        rw [List.length_cons, leftOpen_cons pass]
        exact ih (.quotation u.line current.reverse :: u.before) outer others closes
    | danglingQuote => cases first
    | unterminatedString => cases first

/-! ## Parsing behind instructions -/

/-- A parsed program behind other code. -/
def Parsed.behind (code : Code) (p : Parsed) : Parsed := ⟨code ++ p.program, p.ignored⟩

/-- `Above ground current unclosed current' unclosed'` : the second state of the parser is
the first one with the instructions of `ground` at the bottom of the outermost level. -/
inductive Above (ground : List Instruction) :
    List Instruction → List Unclosed → List Instruction → List Unclosed → Prop where
  | level (current : List Instruction) : Above ground current [] (current ++ ground) []
  | inside (current : List Instruction) (line : Nat) {before before' : List Instruction}
    {outer outer' : List Unclosed} (h : Above ground before outer before' outer') :
    Above ground current (⟨line, before⟩ :: outer) current (⟨line, before'⟩ :: outer')

namespace Above

variable {ground current current' : List Instruction} {unclosed unclosed' : List Unclosed}

theorem cons (h : Above ground current unclosed current' unclosed') (i : Instruction) :
    Above ground (i :: current) unclosed (i :: current') unclosed' := by
  cases h with
  | level => exact .level (i :: current)
  | inside _ line h => exact .inside (i :: current) line h

theorem closeAll_eq (h : Above ground current unclosed current' unclosed') :
    closeAll current' unclosed' = ground.reverse ++ closeAll current unclosed := by
  induction unclosed generalizing current current' unclosed' with
  | nil =>
    cases h with
    | level => simp [closeAll]
  | cons u outer ih =>
    cases h with
    | inside _ line h =>
      rw [closeAll, closeAll]
      exact ih (h.cons _)

/-- Instructions at the outermost level come before all that is parsed behind them. -/
theorem parseInside_eq (h : Above ground current unclosed current' unclosed')
    (ts : List (Located Token)) :
    parseInside current' unclosed' ts =
      (parseInside current unclosed ts).map (Parsed.behind ground.reverse) := by
  fun_induction parseInside current unclosed ts generalizing current' unclosed' with
  | case1 current unclosed =>
    simp only [parseInside, h.closeAll_eq]
    rfl
  | case2 current unclosed line o rest ih => exact ih (h.cons _)
  | case3 current unclosed line rest ih => exact ih (.inside [] line h)
  | case4 current line rest =>
    cases h with
    | level => simp [parseInside, Except.map, Parsed.behind]
  | case5 current line rest u outer ih =>
    cases h with
    | inside _ line h => exact ih (h.cons _)
  | case6 current unclosed line rest => rfl
  | case7 current unclosed line rest => rfl

end Above

/-- Balanced tokens are parsed, and what is parsed behind them follows. -/
theorem parseTokens_append {ts : List (Located Token)} (whole : ∀ t ∈ ts, t.val.IsWhole)
    (balanced : Balanced ts) :
    ∃ code, parseTokens ts = .ok ⟨code, []⟩ ∧
      ∀ more, parseTokens (ts ++ more) = (parseTokens more).map (Parsed.behind code) := by
  obtain ⟨current, unclosed, depth, goes_on⟩ := parseInside_append [] [] whole balanced.1
  have outermost : unclosed = [] := by
    rw [← List.length_eq_zero_iff, depth, leftOpen, balanced.2]
    simp
  subst outermost
  refine ⟨current.reverse, ?_, fun more => ?_⟩
  · have alone := goes_on []
    rwa [List.append_nil] at alone
  · exact (goes_on more).trans ((Above.level []).parseInside_eq more)

/-! ## Sources -/

theorem parse_separated {first separator : String} (closed : EndsClosed first.toList)
    (separates : Separates separator.toList) {ts : List (Located Token)}
    (tokens : tokenize first = .ok ts) (balanced : Balanced ts) (second : String) :
    let k := (first ++ separator).toList.count '\n'
    ∃ code, parse first = .ok code ∧
      parse (first ++ separator ++ second) = do
        let more ← ((parse second).map (Code.mapLine (· + k))).mapError (Located.mapLine (· + k))
        return code ++ more := by
  intro k
  obtain ⟨code, parsed, joined⟩ := parseTokens_append (isWhole_of_tokenize closed tokens) balanced
  have cut := tokenize_separated closed separates second
  refine ⟨code, by rw [parse_of_tokenize tokens, parsed]; rfl, ?_⟩
  cases found : tokenize second with
  | error e =>
    rw [parse, parse, cut, tokens, found]
    rfl
  | ok us =>
    rw [tokens, found] at cut
    have both : tokenize (first ++ separator ++ second) =
        .ok (ts ++ us.map (Located.mapLine (· + k))) := cut
    rw [parse_of_tokenize both, parse_of_tokenize found, joined, parseTokens_mapLine]
    cases parseTokens us <;> rfl

/-- **A source can be cut at any separator.** The tokens of two sources with a separator
between them are those of the first, if it does not end inside a lexeme, and then those of
the second, `k` lines later. If the brackets of the first are balanced, its program is
followed by that of the second, `k` lines later at every level. The first source that is
refused decides the error. -/
theorem tokenize_parse_separated {first separator : String} (closed : EndsClosed first.toList)
    (separates : Separates separator.toList) (second : String) :
    let k := (first ++ separator).toList.count '\n'
    (tokenize (first ++ separator ++ second) = do
      let before ← tokenize first
      let after ← ((tokenize second).map (List.map (Located.mapLine (· + k)))).mapError
        (Located.mapLine (· + k))
      return before ++ after) ∧
    ∀ ts, tokenize first = .ok ts → Balanced ts →
      ∃ code, parse first = .ok code ∧
        parse (first ++ separator ++ second) = do
          let more ← ((parse second).map (Code.mapLine (· + k))).mapError
            (Located.mapLine (· + k))
          return code ++ more :=
  ⟨tokenize_separated closed separates second, fun _ tokens balanced =>
    parse_separated closed separates tokens balanced second⟩

/-- A quoted line end and an integer before the separator, and behind it a sign that would
have been that of the integer. -/
theorem tokenize_parse_separated_sign :
    tokenize ("['\n]1" ++ "\x7b[\n\x7d " ++ "_\n[2") =
        .ok [⟨1, .opening⟩, ⟨2, .op (.character 10)⟩, ⟨2, .closing⟩, ⟨2, .op (.integer 1)⟩,
          ⟨3, .op (.primitive .negate)⟩, ⟨4, .opening⟩, ⟨4, .op (.integer 2)⟩] ∧
      ∃ code, parse "['\n]1" = .ok code ∧
        parse ("['\n]1" ++ "\x7b[\n\x7d " ++ "_\n[2") =
          .ok (code ++ [.op 3 (.primitive .negate), .quotation 4 [.op 4 (.integer 2)]]) := by
  have closed : EndsClosed "['\n]1".toList := by with_unfolding_all rfl
  have comment : Separates ['\x7b', '[', '\n', '\x7d'] := @Separates.comment ['[', '\n'] (by decide)
  have separates : Separates "\x7b[\n\x7d ".toList := comment.append (.blank (by decide))
  have read : tokenize "['\n]1" =
      .ok [⟨1, .opening⟩, ⟨2, .op (.character 10)⟩, ⟨2, .closing⟩, ⟨2, .op (.integer 1)⟩] := by
    with_unfolding_all rfl
  have behind : tokenize "_\n[2" =
      .ok [⟨1, .op (.primitive .negate)⟩, ⟨2, .opening⟩, ⟨2, .op (.integer 2)⟩] := by
    with_unfolding_all rfl
  have second : parse "_\n[2" =
      .ok [.op 1 (.primitive .negate), .quotation 2 [.op 2 (.integer 2)]] := by
    rw [parse_of_tokenize behind]
    rfl
  obtain ⟨tokens, programs⟩ := tokenize_parse_separated closed separates "_\n[2"
  obtain ⟨code, parsed, joined⟩ := programs _ read (by decide)
  rw [read, behind] at tokens
  rw [second] at joined
  exact ⟨tokens, code, parsed, joined⟩

end FalseLang
