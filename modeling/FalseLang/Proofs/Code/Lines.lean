import FalseLang.Proofs.Code.Refusal
import FalseLang.Proofs.Machine.Supply

/-
  Lines: the line numbers of tokens, of instructions and of a literal out of range.

  The line of a position is one more than the number of line ends before it
  (`lineAt`). Reading knows no positions; it carries a line from lexeme to lexeme.
  Here every lexeme gets its position in the text (`placed`), and what is read is
  shown to have the line of its position (`tokensFrom_eq_placed`). That lines never
  decrease, and how far they go, is shown on the lexemes (`tokensFrom_lines`).

  A second reading, `countTokens`, has a counter that is moved as soon as a lexeme
  is cut off and is moved back for a string, which may have gone over several line
  ends. Moving it back below zero is a failure there. It never fails, and it reads
  the same tokens (`countTokens_eq`).
-/

namespace FalseLang

/-! ## Positions -/

/-- The line of a position in a text. -/
def lineAt (text : List Char) (offset : Nat) : Nat := 1 + (text.take offset).count '\n'

theorem lineAt_length (before after : List Char) :
    lineAt (before ++ after) before.length = 1 + before.count '\n' := by
  rw [lineAt, List.take_left]

/-- A lexeme and the position at which it starts. -/
structure Placed where
  offset : Nat
  lexeme : Lexeme
  deriving DecidableEq, Repr

/-- Lexemes one behind the other, the first of them at a given position. -/
def placedFrom (offset : Nat) : List Lexeme → List Placed
  | [] => []
  | l :: rest => ⟨offset, l⟩ :: placedFrom (offset + l.text.length) rest

/-- The lexemes of a source, each with its position. -/
def placed (source : String) : List Placed := placedFrom 0 (lexemes source.toList)

theorem placedFrom_append (offset : Nat) (first rest : List Lexeme) :
    placedFrom offset (first ++ rest) =
      placedFrom offset first ++
        placedFrom (offset + (first.flatMap Lexeme.text).length) rest := by
  induction first generalizing offset with
  | nil => rfl
  | cons l first ih =>
    rw [List.cons_append, placedFrom, placedFrom, ih, List.flatMap_cons, List.length_append,
      Nat.add_assoc, List.cons_append]

theorem lexeme_of_mem_placedFrom {offset : Nat} {ls : List Lexeme} {p : Placed}
    (mem : p ∈ placedFrom offset ls) : p.lexeme ∈ ls := by
  induction ls generalizing offset with
  | nil => cases mem
  | cons l rest ih =>
    rcases List.mem_cons.1 mem with rfl | later
    · exact List.mem_cons_self
    · exact List.mem_cons_of_mem l (ih later)

/-- A lexeme stands in the text at its position. -/
theorem text_of_mem_placedFrom {before : List Char} {ls : List Lexeme} {p : Placed}
    (mem : p ∈ placedFrom before.length ls) :
    p.lexeme.text <+: (before ++ ls.flatMap Lexeme.text).drop p.offset := by
  induction ls generalizing before with
  | nil => cases mem
  | cons l rest ih =>
    rw [List.flatMap_cons]
    rcases List.mem_cons.1 mem with rfl | later
    · rw [List.drop_left]
      exact List.prefix_append l.text _
    · rw [← List.length_append] at later
      rw [← List.append_assoc]
      exact ih later

/-! ## The line of a position is the line that is carried -/

/-- The line of the token of a lexeme in its text. The literal of a line end belongs to the line
behind it. -/
def Placed.line (text : List Char) (p : Placed) : Nat :=
  if p.lexeme = .character '\n' then lineAt text p.offset + 1 else lineAt text p.offset

/-- The token of a lexeme in its text, if it stands for one. -/
def Placed.token? (text : List Char) (p : Placed) : Option (Located Token) :=
  match p.lexeme.token with
  | .ok (some t) => some ⟨p.line text, t⟩
  | _ => none

theorem Lexeme.lineFrom_eq (l : Lexeme) (line : Nat) :
    l.lineFrom line = if l = .character '\n' then line + 1 else line := by
  unfold lineFrom
  split
  · rfl
  · rename_i other
    exact (if_neg other).symm

/-- The tokens of lexemes behind a text, from their positions in the whole. -/
theorem tokensFrom_eq_placed {before : List Char} {ls : List Lexeme} {ts : List (Located Token)}
    (read : tokensFrom (1 + before.count '\n') ls = .ok ts) :
    ts = (placedFrom before.length ls).filterMap
      (Placed.token? (before ++ ls.flatMap Lexeme.text)) := by
  -- The line that is carried is that behind `before`, which grows by each lexeme.
  induction ls generalizing before ts with
  | nil =>
    cases read
    rfl
  | cons l rest ih =>
    obtain ⟨m, us, token, others, rfl⟩ := tokensFrom_cons_eq_ok_iff.1 read
    rw [Lexeme.newlines, Nat.add_assoc, ← List.count_append] at others
    have first : Placed.token? (before ++ (l :: rest).flatMap Lexeme.text) ⟨before.length, l⟩ =
        m.map fun t => ⟨l.lineFrom (1 + before.count '\n'), t⟩ := by
      rw [Placed.token?, token, Placed.line, lineAt_length, ← Lexeme.lineFrom_eq]
      cases m <;> rfl
    have behind := ih others
    rw [List.append_assoc, ← List.flatMap_cons, List.length_append] at behind
    rw [placedFrom, List.filterMap_cons, first, ← behind]
    cases m <;> rfl

/-! ## Lines never decrease -/

theorem Lexeme.lineFrom_bounds (l : Lexeme) (line : Nat) :
    line ≤ l.lineFrom line ∧ l.lineFrom line ≤ line + l.newlines := by
  unfold lineFrom
  split
  · exact ⟨Nat.le_succ line, Nat.le_refl _⟩
  · exact ⟨Nat.le_refl line, Nat.le_add_right line _⟩

/-- Tokens stand on the lines between the first lexeme and the last, in order. -/
theorem tokensFrom_lines {line : Nat} {ls : List Lexeme} {ts : List (Located Token)}
    (read : tokensFrom line ls = .ok ts) :
    (∀ t ∈ ts, line ≤ t.line ∧ t.line ≤ lineBehind line ls) ∧
    ts.Pairwise (·.line ≤ ·.line) := by
  induction ls generalizing line ts with
  | nil =>
    cases read
    exact ⟨by simp, .nil⟩
  | cons l rest ih =>
    obtain ⟨m, us, token, others, rfl⟩ := tokensFrom_cons_eq_ok_iff.1 read
    obtain ⟨within, sorted⟩ := ih others
    obtain ⟨above, below⟩ := l.lineFrom_bounds line
    have last : line + l.newlines ≤ lineBehind line (l :: rest) := by
      rw [lineBehind_cons]
      exact Nat.le_add_right _ _
    have later : ∀ t ∈ us, line + l.newlines ≤ t.line ∧ t.line ≤ lineBehind line (l :: rest) := by
      rw [lineBehind_cons]
      exact within
    have all : ∀ t ∈ us, line ≤ t.line ∧ t.line ≤ lineBehind line (l :: rest) := fun t mem =>
      ⟨Nat.le_trans (Nat.le_add_right line _) (later t mem).1, (later t mem).2⟩
    cases m with
    | none => exact ⟨all, sorted⟩
    | some first =>
      refine ⟨List.forall_mem_cons.2 ⟨⟨above, Nat.le_trans below last⟩, all⟩, ?_⟩
      exact .cons (fun t mem => Nat.le_trans below (later t mem).1) sorted

theorem lineBehind_lexemes (line : Nat) (text : List Char) :
    lineBehind line (lexemes text) = line + text.count '\n' := by
  rw [lineBehind, lexemes_text]

/-! ## The lines of a program -/

mutual

/-- Every instruction has the line of one of the tokens of its program, which is no closing
bracket. -/
theorem Instruction.exists_token_of_mem_parts {i j : Instruction} (mem : j ∈ i.parts) :
    ∃ t ∈ i.tokens, t.line = j.line ∧ t.val ≠ .closing := by
  cases i with
  | op line o =>
    rw [Instruction.parts, List.mem_singleton] at mem
    subst mem
    exact ⟨⟨line, .op o⟩, by simp [Instruction.tokens], rfl, by simp⟩
  | quotation line body =>
    rw [Instruction.parts, List.mem_cons] at mem
    rw [Instruction.tokens]
    rcases mem with rfl | inside
    · exact ⟨⟨line, .opening⟩, List.mem_cons_self, rfl, by simp⟩
    · obtain ⟨t, found, same, other⟩ := Code.exists_token_of_mem_parts inside
      exact ⟨t, by simp [found], same, other⟩

theorem Code.exists_token_of_mem_parts {code : Code} {j : Instruction} (mem : j ∈ code.parts) :
    ∃ t ∈ code.tokens, t.line = j.line ∧ t.val ≠ .closing := by
  cases code with
  | nil => cases mem
  | cons i rest =>
    rw [Code.parts, List.mem_append] at mem
    rw [Code.tokens]
    rcases mem with here | later
    · obtain ⟨t, found, same, other⟩ := Instruction.exists_token_of_mem_parts here
      exact ⟨t, List.mem_append_left _ found, same, other⟩
    · obtain ⟨t, found, same, other⟩ := Code.exists_token_of_mem_parts later
      exact ⟨t, List.mem_append_right _ found, same, other⟩

end

/-- The lines of a program are lines of its source. -/
theorem line_of_mem_parts {source : String} {code : Code} (accepted : parse source = .ok code)
    {i : Instruction} (mem : i ∈ code.parts) :
    1 ≤ i.line ∧ i.line ≤ 1 + source.toList.count '\n' := by
  obtain ⟨ts, parsed, tokens, found, rfl⟩ := parse_eq_ok accepted
  obtain ⟨t, inside, same, other⟩ := Code.exists_token_of_mem_parts mem
  have bounds := (tokensFrom_lines tokens).1 t (mem_of_mem_tokens found other inside)
  rwa [lineBehind_lexemes, same] at bounds

/-! ## The line of a literal out of range -/

/-- Reading fails at the first literal out of range only, on the line of its position. -/
theorem placed_of_tokenize_error {source : String} {e : ParseError}
    (failed : tokenize source = .error e) :
    ∃ before p after, placed source = before ++ p :: after ∧
      (∀ q ∈ before, q.lexeme.Fits) ∧ ¬ p.lexeme.Fits ∧
      e = ⟨lineAt source.toList p.offset, .literalTooLarge (String.ofList p.lexeme.text)⟩ := by
  obtain ⟨before, l, after, cut, first, large, rfl⟩ := exists_large_of_tokenize failed
  have start : lineAt source.toList (before.flatMap Lexeme.text).length = lineBehind 1 before := by
    rw [← lexemes_text source.toList, cut, List.flatMap_append, lineAt_length, lineBehind]
  have place := placedFrom_append 0 before (l :: after)
  rw [← cut, Nat.zero_add] at place
  refine ⟨_, ⟨_, l⟩, _, place, ?_, large, by rw [start]⟩
  exact fun q mem => first q.lexeme (lexeme_of_mem_placedFrom mem)

/-! ## Reading with a counter -/

namespace Lexeme

/-- How far a lexeme moves the counter when it is cut off. A string that is never closed does
not move it. -/
def counted : Lexeme → Nat
  | .newline => 1
  | .character c => if c = '\n' then 1 else 0
  | .string text => (Lexeme.string text).newlines
  | .comment text closed => (Lexeme.comment text closed).newlines
  | _ => 0

/-- The line of a lexeme, from the counter behind it. For a string the counter goes back over
the line ends between its quotes, and there is no line if it stands too low for that. -/
def lineBack (counter : Nat) : Lexeme → Option Nat
  | .string text =>
    if text.count '\n' ≤ counter then some (counter - text.count '\n') else none
  | _ => some counter

end Lexeme

/-- Reads lexemes with the counter at a given number. There is no result if the counter would
have to go back below zero. -/
def countTokens (counter : Nat) : List Lexeme → Option (Except ParseError (List (Located Token)))
  | [] => some (.ok [])
  | l :: rest =>
    match l.token with
    | .error defect => some (.error ⟨counter + l.counted, defect⟩)
    | .ok none => countTokens (counter + l.counted) rest
    | .ok (some t) => do
      let line ← l.lineBack (counter + l.counted)
      let read ← countTokens (counter + l.counted) rest
      return read.map (⟨line, t⟩ :: ·)

theorem Lexeme.newlines_integer {digits : List Char} (all : ∀ d ∈ digits, d.isDigit = true)
    (negated : Bool) : (Lexeme.integer digits negated).newlines = 0 := by
  have none_inside := count_newline_of_all all (by decide)
  cases negated <;> simp [newlines, text, none_inside]

/-- The counter goes over all line ends of a lexeme, if anything follows it. -/
theorem Cut.counted_eq {text rest : List Char} {l : Lexeme} (cut : Cut text l rest) :
    l.counted = l.newlines ∨ rest = [] := by
  cases cut with
  | signed digit digits | unsigned digit digits =>
    exact Or.inl (Lexeme.newlines_integer (List.forall_mem_cons.2 ⟨digit, digits⟩) _).symm
  | character c =>
    left
    by_cases h : c = '\n' <;> simp [Lexeme.counted, Lexeme.newlines, Lexeme.text, h]
  | danglingQuote | unterminatedString | openComment => exact Or.inr rfl
  | string | comment | newline => exact Or.inl rfl
  | blanks blank run =>
    exact Or.inl (count_newline_of_blanks (List.forall_mem_cons.2 ⟨blank, run⟩)).symm
  | single plain =>
    exact Or.inl (count_newline_of_all (List.forall_mem_singleton.2 plain) (by decide)).symm

/-- Going back, the counter stands on the line that the lexeme starts on. -/
theorem Lexeme.lineBack_counted {l : Lexeme} {t : Token} (h : l.token = .ok (some t))
    (line : Nat) : l.lineBack (line + l.counted) = some (l.lineFrom line) := by
  cases l with
  | string text =>
    have quotes : (Lexeme.string text).newlines = text.count '\n' := by
      simp [newlines, Lexeme.text]
    simp [lineBack, counted, quotes, lineFrom]
  | character c => by_cases h : c = '\n' <;> simp [lineBack, counted, lineFrom_eq, h]
  | comment | newline | blanks => cases h
  | integer | danglingQuote | unterminatedString | single => rfl

/-- An integer does not move the counter. -/
theorem Lexeme.counted_of_error {l : Lexeme} {d : Defect} (h : l.token = .error d) (line : Nat) :
    line + l.counted = l.lineFrom line := by
  cases l with
  | integer => rfl
  | character | danglingQuote | string | unterminatedString | comment | newline | blanks
  | single => cases h

/-- The counter never has to go below zero, and what is read with it is the same. -/
theorem countTokens_eq (text : List Char) (line : Nat) :
    countTokens line (lexemes text) = some (tokensFrom line (lexemes text)) := by
  match text with
  | [] =>
    rw [lexemes_nil]
    rfl
  | c :: cs =>
    have cut := cut_next c cs
    rw [lexemes_cons]
    generalize (Lexeme.next c cs).1 = l at cut ⊢
    have behind : countTokens (line + l.counted) (lexemes (Lexeme.next c cs).2) =
        some (tokensFrom (line + l.newlines) (lexemes (Lexeme.next c cs).2)) := by
      -- Where the counter is left behind, nothing follows that it could be used for.
      rcases cut.counted_eq with same | last
      · rw [same]
        exact countTokens_eq (Lexeme.next c cs).2 _
      · rw [last, lexemes_nil]
        rfl
    cases token : l.token with
    | error d =>
      rw [tokensFrom_cons_error token, ← l.counted_of_error token]
      simp only [countTokens, token]
    | ok m =>
      cases m with
      | none => simp only [countTokens, token, tokensFrom_cons_none token, behind]
      | some t =>
        rw [tokensFrom_cons_some token]
        simp only [countTokens, token, Lexeme.lineBack_counted token, behind]
        rfl
termination_by text.length
decreasing_by exact Lexeme.next_length c cs

/-! ## The lines of a source -/

/-- **Every line is that of a position in the source.** Each lexeme stands at its position. The
tokens have the lines of their lexemes, in order; only the literal of a line end has the line
behind it. All lines of a program are lines of its source. If reading fails, then on the line of
the first literal out of range. And a counter that goes ahead of strings and then back reads the
same, without ever going below zero. -/
theorem lines_of_positions (source : String) :
    (∀ p ∈ placed source, p.lexeme.text <+: source.toList.drop p.offset) ∧
    (∀ ts, tokenize source = .ok ts →
      ts = (placed source).filterMap (Placed.token? source.toList) ∧
      ts.Pairwise (·.line ≤ ·.line)) ∧
    (∀ code, parse source = .ok code →
      ∀ i ∈ code.parts, 1 ≤ i.line ∧ i.line ≤ 1 + source.toList.count '\n') ∧
    (∀ e, tokenize source = .error e →
      ∃ before p after, placed source = before ++ p :: after ∧
        (∀ q ∈ before, q.lexeme.Fits) ∧ ¬ p.lexeme.Fits ∧
        e = ⟨lineAt source.toList p.offset, .literalTooLarge (String.ofList p.lexeme.text)⟩) ∧
    countTokens 1 (lexemes source.toList) = some (tokenize source) := by
  have whole : [] ++ (lexemes source.toList).flatMap Lexeme.text = source.toList :=
    lexemes_text source.toList
  refine ⟨fun p mem => ?_, fun ts read => ⟨?_, (tokensFrom_lines read).2⟩,
    fun code accepted i mem => line_of_mem_parts accepted mem,
    fun e failed => placed_of_tokenize_error failed, countTokens_eq source.toList 1⟩
  · have stands := @text_of_mem_placedFrom [] _ p mem
    rwa [whole] at stands
  · have tokens := @tokensFrom_eq_placed [] _ ts read
    rwa [whole] at tokens

/-- Line ends in a string, in a comment and in a literal, and a literal out of range on the
second line. -/
theorem lines_of_positions_strings :
    ((placed "1\n\"a\nb\"\x7b\n\x7d\n2'\n[3").filterMap
      (Placed.token? "1\n\"a\nb\"\x7b\n\x7d\n2'\n[3".toList)).map Located.line =
        [1, 2, 5, 6, 6, 6] ∧
    ∃ p ∈ placed "\"\n\"99999999999999999999", ¬ p.lexeme.Fits ∧
      lineAt "\"\n\"99999999999999999999".toList p.offset = 2 := by
  have lines : (tokenize "1\n\"a\nb\"\x7b\n\x7d\n2'\n[3").map (List.map Located.line) =
      .ok [1, 2, 5, 6, 6, 6] := by
    with_unfolding_all rfl
  have failed : tokenize "\"\n\"99999999999999999999" =
      .error ⟨2, .literalTooLarge "99999999999999999999"⟩ := by
    with_unfolding_all rfl
  constructor
  · cases read : tokenize "1\n\"a\nb\"\x7b\n\x7d\n2'\n[3" with
    | error e =>
      rw [read] at lines
      cases lines
    | ok ts =>
      rw [read] at lines
      injection lines with lines
      rw [← ((lines_of_positions _).2.1 ts read).1, lines]
  · obtain ⟨before, p, after, cut, -, large, same⟩ := (lines_of_positions _).2.2.2.1 _ failed
    injection same with line
    exact ⟨p, by simp [cut], large, line.symm⟩

end FalseLang
