import FalseLang.Proofs.Token.Pattern

/-
  Longest match: reading a source text is what the patterns say it is.

  A text is split from left to right, each time at the longest piece that is a text
  of some pattern, or behind one character if no piece is (`IsLongest`, `Split`).
  Whatever the patterns are, there is at most one such split (`Split.unique`). The
  lexemes of a text are such a split of it (`split_lexemes`): a lexeme is a text of
  a pattern, and no other lexeme that begins the text is longer
  (`Lexeme.Formed.length_le`). So the tokens of a source are those of the pieces, in
  order, and only pieces that stand for nothing are left out (`Stand`).
-/

namespace FalseLang

/-! ## Splitting at longest pieces -/

/-- `piece` begins the text and is the longest beginning that is of some pattern, or a single
character if no beginning is. -/
def IsLongest (piece text : List Char) : Prop :=
  piece <+: text ∧
    ((Declared piece ∧ ∀ other, other <+: text → Declared other → other.length ≤ piece.length) ∨
      ((∀ other, other <+: text → ¬ Declared other) ∧ piece.length = 1))

/-- A text and the longest pieces it falls into, from left to right. -/
inductive Split : List Char → List (List Char) → Prop where
  | nil : Split [] []
  | cons {piece rest : List Char} {pieces : List (List Char)}
    (first : IsLongest piece (piece ++ rest)) (others : Split rest pieces) :
    Split (piece ++ rest) (piece :: pieces)

theorem Declared.ne_nil {text : List Char} (h : Declared text) : text ≠ [] := by
  obtain ⟨l, formed, rfl, -⟩ := declared_iff.1 h
  exact formed.text_ne_nil

namespace IsLongest

variable {piece other text : List Char}

theorem ne_nil (h : IsLongest piece text) : piece ≠ [] := by
  rcases h.2 with ⟨declared, -⟩ | ⟨-, one⟩
  · exact declared.ne_nil
  · intro empty
    rw [empty] at one
    cases one

/-- A text begins with one longest piece only. -/
theorem unique (h : IsLongest piece text) (h' : IsLongest other text) : piece = other := by
  have length : piece.length = other.length := by
    rcases h.2 with ⟨declared, longest⟩ | ⟨none, one⟩
    · rcases h'.2 with ⟨declared', longest'⟩ | ⟨none', -⟩
      · exact Nat.le_antisymm (longest' piece h.1 declared) (longest other h'.1 declared')
      · exact absurd declared (none' piece h.1)
    · rcases h'.2 with ⟨declared', -⟩ | ⟨-, one'⟩
      · exact absurd declared' (none other h'.1)
      · rw [one, one']
  exact (List.prefix_of_prefix_length_le h.1 h'.1 (Nat.le_of_eq length)).eq_of_length length

end IsLongest

namespace Split

variable {text : List Char} {pieces others : List (List Char)}

theorem flatten_eq (h : Split text pieces) : pieces.flatten = text := by
  induction h with
  | nil => rfl
  | cons first others ih => rw [List.flatten_cons, ih]

theorem ne_nil_of_mem (h : Split text pieces) : ∀ piece ∈ pieces, piece ≠ [] := by
  induction h with
  | nil => simp
  | cons first others ih =>
    intro piece mem
    rcases List.mem_cons.1 mem with rfl | later
    · exact first.ne_nil
    · exact ih piece later

/-- There is only one way to split a text. -/
theorem unique (h : Split text pieces) (h' : Split text others) : others = pieces := by
  induction h generalizing others with
  | nil =>
    generalize whole : [] = text at h'
    cases h' with
    | nil => rfl
    | cons first rest => exact absurd (List.append_eq_nil_iff.1 whole.symm).1 first.ne_nil
  | @cons piece rest pieces first behind ih =>
    generalize whole : piece ++ rest = text at first h'
    cases h' with
    | nil => exact absurd (List.append_eq_nil_iff.1 whole).1 first.ne_nil
    | @cons piece' rest' pieces' first' behind' =>
      obtain rfl := first.unique first'
      obtain rfl := List.append_cancel_left whole
      rw [ih behind']

end Split

/-! ## Lexemes are longest pieces -/

/-- Digits before more text are all taken. -/
theorem length_le_nextInteger {digits : List Char} (all : ∀ d ∈ digits, d.isDigit = true) (c : Char)
    (more : List Char) :
    (c :: digits).length ≤ (Lexeme.nextInteger c (digits ++ more)).1.text.length := by
  unfold Lexeme.nextInteger
  rw [List.takeWhile_append_of_pos all]
  split <;> simp [Lexeme.text]

/-- What is known to be inside a string stays inside it, whatever follows. -/
theorem length_le_nextString {inside : List Char} (free : '"' ∉ inside) (more : List Char) :
    ('"' :: inside).length ≤ (Lexeme.nextString (inside ++ more)).1.text.length := by
  unfold Lexeme.nextString
  rw [List.takeWhile_append_of_pos (all_bne_of_not_mem free)]
  split <;> simp [Lexeme.text]

theorem length_le_nextComment {inside : List Char} (free : '\x7d' ∉ inside) (more : List Char) :
    ('\x7b' :: inside).length ≤ (Lexeme.nextComment (inside ++ more)).1.text.length := by
  unfold Lexeme.nextComment
  rw [List.takeWhile_append_of_pos (all_bne_of_not_mem free)]
  split <;> simp [Lexeme.text]

/-- No lexeme that begins a text is longer than the one that is cut off it. -/
theorem Lexeme.Formed.length_le {k : Lexeme} (h : k.Formed) {c : Char} {cs more : List Char}
    (begins : k.text ++ more = c :: cs) : k.text.length ≤ (Lexeme.next c cs).1.text.length := by
  have some_text : 1 ≤ (Lexeme.next c cs).1.text.length :=
    List.length_pos_iff.2 (Lexeme.next_text_ne_nil c cs)
  have as_cut : Cut (c :: cs) k more → k.text.length ≤ (Lexeme.next c cs).1.text.length := by
    intro cut
    exact Nat.le_of_eq (by rw [cut.next_eq])
  cases k with
  | danglingQuote | newline | single => exact some_text
  | integer digits negated =>
    obtain ⟨nonempty, all⟩ := h
    obtain ⟨d, ds, rfl⟩ := List.exists_cons_of_ne_nil nonempty
    have digit := all d List.mem_cons_self
    have digits : ∀ e ∈ ds, e.isDigit = true := fun e mem => all e (List.mem_cons_of_mem d mem)
    cases negated with
    | true =>
      apply as_cut
      rw [← begins]
      simpa [text] using Cut.signed digit digits more
    | false =>
      -- More digits may follow, and then a sign.
      simp only [text, Bool.false_eq_true, if_false, List.cons_append, List.cons.injEq] at begins
      obtain ⟨rfl, rfl⟩ := begins
      rw [Lexeme.next, if_pos digit]
      exact length_le_nextInteger digits d more
  | character d =>
    apply as_cut
    rw [← begins]
    exact .character d more
  | string inside =>
    apply as_cut
    rw [← begins]
    simpa [text] using Cut.string h more
  | unterminatedString inside =>
    simp only [text, List.cons_append, List.cons.injEq] at begins
    obtain ⟨rfl, rfl⟩ := begins
    exact length_le_nextString h more
  | comment inside closed =>
    cases closed with
    | true =>
      apply as_cut
      rw [← begins]
      simpa [text] using Cut.comment h more
    | false =>
      simp only [text, Bool.false_eq_true, if_false, List.cons_append, List.cons.injEq] at begins
      obtain ⟨rfl, rfl⟩ := begins
      exact length_le_nextComment h more
  | blanks run =>
    obtain ⟨nonempty, all⟩ := h
    obtain ⟨d, ds, rfl⟩ := List.exists_cons_of_ne_nil nonempty
    have others : ∀ e ∈ ds, isBlank e = true := fun e mem => all e (List.mem_cons_of_mem d mem)
    simp only [text, List.cons_append, List.cons.injEq] at begins
    obtain ⟨rfl, rfl⟩ := begins
    rw [next_blank (all d List.mem_cons_self), List.takeWhile_append_of_pos others]
    simp [text]

/-- A character without a meaning begins no text of a pattern. -/
theorem not_declared_of_unknown {c : Char} (plain : isPlain c = true)
    (unknown : Token.ofChar? c = none) {other rest : List Char} (begins : other <+: c :: rest) :
    ¬ Declared other := by
  intro declared
  obtain ⟨k, formed, rfl, known⟩ := declared_iff.1 declared
  obtain ⟨more, whole⟩ := begins
  obtain ⟨d, ds, text⟩ := List.exists_cons_of_ne_nil formed.text_ne_nil
  rw [text] at whole
  injection whole with same
  subst same
  -- Alone, too, the character is a lexeme of its own.
  have cut := formed.cut
  rw [text] at cut
  have single : k = .single d := by
    have both := cut.next_eq
    rw [next_plain plain] at both
    exact (congrArg Prod.fst both).symm
  rw [single] at known
  simp [Lexeme.unknown?, unknown] at known

theorem Lexeme.eq_single_of_unknown {l : Lexeme} (h : l.unknown? ≠ none) :
    ∃ c, l = .single c ∧ Token.ofChar? c = none := by
  cases l with
  | single c =>
    refine ⟨c, rfl, ?_⟩
    cases token : Token.ofChar? c with
    | none => rfl
    | some t => simp [Lexeme.unknown?, token] at h
  | integer | character | danglingQuote | string | unterminatedString | comment | newline
  | blanks => exact absurd rfl h

/-- The lexeme that is cut off a text is the longest piece there. -/
theorem isLongest_next (c : Char) (cs : List Char) :
    IsLongest (Lexeme.next c cs).1.text (c :: cs) := by
  have cut := cut_next c cs
  refine ⟨⟨_, Lexeme.next_text c cs⟩, ?_⟩
  by_cases known : (Lexeme.next c cs).1.unknown? = none
  · refine Or.inl ⟨cut.formed.declared known, fun other begins declared => ?_⟩
    obtain ⟨k, formed, rfl, -⟩ := declared_iff.1 declared
    obtain ⟨more, whole⟩ := begins
    exact formed.length_le whole
  · obtain ⟨d, single, unknown⟩ := Lexeme.eq_single_of_unknown known
    rw [single] at cut ⊢
    generalize (Lexeme.next c cs).2 = rest at cut
    cases cut with
    | single plain =>
      exact Or.inr ⟨fun other begins => not_declared_of_unknown plain unknown begins, rfl⟩

/-- The lexemes of a text are its longest pieces. -/
theorem split_lexemes (text : List Char) : Split text ((lexemes text).map Lexeme.text) := by
  match text with
  | [] =>
    rw [lexemes_nil]
    exact .nil
  | c :: cs =>
    have first := isLongest_next c cs
    have others := split_lexemes (Lexeme.next c cs).2
    rw [lexemes_cons, List.map_cons]
    rw [← Lexeme.next_text c cs] at first
    have both := Split.cons first others
    rwa [Lexeme.next_text] at both
termination_by text.length
decreasing_by exact Lexeme.next_length c cs

/-! ## What the pieces stand for -/

/-- The tokens that pieces of a text stand for, in order. A piece that stands for none is of
a pattern that is skipped, or of no pattern. -/
inductive Stand : List (List Char) → List Token → Prop where
  | nil : Stand [] []
  | token {r : TokenRule} {piece : List Char} {t : Token} {pieces : List (List Char)}
    {ts : List Token} (rule : r ∈ tokenRules) (shape : r.pattern.Matches piece)
    (read : r.read piece = some t) (others : Stand pieces ts) : Stand (piece :: pieces) (t :: ts)
  | skipped {p : Regex} {piece : List Char} {pieces : List (List Char)} {ts : List Token}
    (pattern : p ∈ skippedPatterns) (shape : p.Matches piece) (others : Stand pieces ts) :
    Stand (piece :: pieces) ts
  | unknown {piece : List Char} {pieces : List (List Char)} {ts : List Token}
    (undeclared : ¬ Declared piece) (others : Stand pieces ts) : Stand (piece :: pieces) ts

/-- An integer literal whose value is no integer of the language. -/
def OutOfRange (piece : List Char) : Prop :=
  integerRule.pattern.Matches piece ∧ integerRule.read piece = none

namespace Lexeme.Formed

variable {l : Lexeme} (h : l.Formed)
include h

/-- A rule whose pattern the text of a lexeme is of says what the lexeme stands for. -/
theorem token_eq_meaning {r : TokenRule} (rule : r ∈ tokenRules)
    (shape : r.pattern.Matches l.text) : l.token = r.meaning l.text := by
  obtain ⟨k, formed, same, -, token⟩ := exists_lexeme_of_tokenRule rule shape
  rw [← formed.eq_of_text_eq h same]
  rwa [← same] at token

theorem token_of_skipped {p : Regex} (pattern : p ∈ skippedPatterns)
    (shape : p.Matches l.text) : l.token = .ok none := by
  obtain ⟨k, formed, same, -, token⟩ := exists_lexeme_of_skipped pattern shape
  rw [← formed.eq_of_text_eq h same]
  exact token

theorem token_of_not_declared (undeclared : ¬ Declared l.text) : l.token = .ok none := by
  have unknown : l.unknown? ≠ none := fun known => undeclared (h.declared known)
  obtain ⟨c, rfl, token⟩ := Lexeme.eq_single_of_unknown unknown
  rw [Lexeme.token, token]

theorem exists_rule {t : Token} (token : l.token = .ok (some t)) :
    ∃ r ∈ tokenRules, r.pattern.Matches l.text ∧ r.read l.text = some t := by
  by_cases declared : Declared l.text
  · rcases declared with ⟨r, rule, shape⟩ | ⟨p, pattern, shape⟩
    · rw [h.token_eq_meaning rule shape, TokenRule.meaning] at token
      split at token
      · rename_i read
        cases token
        exact ⟨r, rule, shape, read⟩
      · cases token
    · rw [h.token_of_skipped pattern shape] at token
      cases token
  · rw [h.token_of_not_declared declared] at token
    cases token

theorem skipped_or_undeclared (token : l.token = .ok none) :
    (∃ p ∈ skippedPatterns, p.Matches l.text) ∨ ¬ Declared l.text := by
  by_cases declared : Declared l.text
  · rcases declared with ⟨r, rule, shape⟩ | skipped
    · rw [h.token_eq_meaning rule shape, TokenRule.meaning] at token
      split at token <;> cases token
    · exact Or.inl skipped
  · exact Or.inr declared

/-- The tokens of pieces of which the first is the text of a lexeme. -/
theorem stand_cons_iff {pieces : List (List Char)} {us : List Token} :
    Stand (l.text :: pieces) us ↔
      (∃ t ts, l.token = .ok (some t) ∧ us = t :: ts ∧ Stand pieces ts) ∨
        (l.token = .ok none ∧ Stand pieces us) := by
  constructor
  · intro stand
    cases stand with
    | @token r _ t _ ts rule shape read others =>
      refine Or.inl ⟨t, ts, ?_, rfl, others⟩
      rw [h.token_eq_meaning rule shape, TokenRule.meaning, read]
    | skipped pattern shape others => exact Or.inr ⟨h.token_of_skipped pattern shape, others⟩
    | unknown undeclared others => exact Or.inr ⟨h.token_of_not_declared undeclared, others⟩
  · rintro (⟨t, ts, token, rfl, others⟩ | ⟨token, others⟩)
    · obtain ⟨r, rule, shape, read⟩ := h.exists_rule token
      exact .token rule shape read others
    · rcases h.skipped_or_undeclared token with ⟨p, pattern, shape⟩ | undeclared
      · exact .skipped pattern shape others
      · exact .unknown undeclared others

theorem not_outOfRange {m : Option Token} (token : l.token = .ok m) : ¬ OutOfRange l.text := by
  rintro ⟨shape, read⟩
  rw [h.token_eq_meaning List.mem_cons_self shape, TokenRule.meaning, read] at token
  cases token

/-- Only integers out of range cannot be read. -/
theorem outOfRange {d : Defect} (token : l.token = .error d) :
    OutOfRange l.text ∧ d = .literalTooLarge (String.ofList l.text) := by
  cases l with
  | integer digits negated =>
    have shape := matches_integer.2 ⟨digits, negated, h.1, h.2, rfl⟩
    rw [h.token_eq_meaning List.mem_cons_self shape] at token
    unfold TokenRule.meaning at token
    cases read : integerRule.read (text (.integer digits negated)) with
    | none =>
      rw [read] at token
      cases token
      exact ⟨⟨shape, read⟩, rfl⟩
    | some t =>
      rw [read] at token
      cases token
  | character | danglingQuote | string | unterminatedString | comment | newline | blanks
  | single => cases token

end Lexeme.Formed

theorem formed_of_mem_lexemes {text : List Char} {l : Lexeme} (mem : l ∈ lexemes text) :
    l.Formed := by
  match text with
  | [] => simp at mem
  | c :: cs =>
    rw [lexemes_cons, List.mem_cons] at mem
    rcases mem with rfl | later
    · exact (cut_next c cs).formed
    · exact formed_of_mem_lexemes later
termination_by text.length
decreasing_by exact Lexeme.next_length c cs

/-- The tokens of lexemes are those that their texts stand for, and no others. -/
theorem stand_iff_of_tokensFrom {ls : List Lexeme} (formed : ∀ l ∈ ls, l.Formed) {line : Nat}
    {ts : List (Located Token)} (read : tokensFrom line ls = .ok ts) (us : List Token) :
    Stand (ls.map Lexeme.text) us ↔ us = ts.map Located.val := by
  induction ls generalizing line ts us with
  | nil =>
    cases read
    constructor
    · intro stand
      cases stand
      rfl
    · rintro rfl
      exact .nil
  | cons l rest ih =>
    have others : ∀ k ∈ rest, k.Formed := fun k mem => formed k (List.mem_cons_of_mem l mem)
    rw [List.map_cons, (formed l List.mem_cons_self).stand_cons_iff]
    obtain ⟨m, rest_tokens, token, found, rfl⟩ := tokensFrom_cons_eq_ok_iff.1 read
    rw [token]
    cases m <;> simp [ih others found]

/-- **Reading a source is reading its longest pieces.** A source splits in exactly one way into
longest pieces of the patterns. If it can be read, its tokens are those that the pieces stand
for; if not, all pieces before the first integer out of range can be read, and that one is
reported. -/
theorem tokenize_longest_match (source : String) :
    ∃ pieces, Split source.toList pieces ∧
      (∀ others, Split source.toList others → others = pieces) ∧
      pieces.flatten = source.toList ∧ (∀ piece ∈ pieces, piece ≠ []) ∧
      (∀ ts, tokenize source = .ok ts → ∀ us, Stand pieces us ↔ us = ts.map Located.val) ∧
      (∀ e, tokenize source = .error e →
        ∃ before piece after, pieces = before ++ piece :: after ∧
          (∀ other ∈ before, ¬ OutOfRange other) ∧ OutOfRange piece ∧
          e.val = .literalTooLarge (String.ofList piece)) := by
  have split := split_lexemes source.toList
  have formed : ∀ l ∈ lexemes source.toList, l.Formed := fun l mem => formed_of_mem_lexemes mem
  refine ⟨_, split, fun _ => split.unique, split.flatten_eq, split.ne_nil_of_mem, ?_, ?_⟩
  · intro ts read
    exact stand_iff_of_tokensFrom formed read
  · intro e failed
    obtain ⟨before, l, after, cut, readable, token, -⟩ := tokensFrom_eq_error_iff.1 failed
    rw [cut] at formed ⊢
    have last := (formed l (by simp)).outOfRange token
    refine ⟨before.map Lexeme.text, l.text, after.map Lexeme.text, by simp, ?_, last⟩
    intro other mem
    obtain ⟨k, found, rfl⟩ := List.mem_map.1 mem
    obtain ⟨m, read⟩ := readable k found
    exact (formed k (List.mem_append_left _ found)).not_outOfRange read

/-- A sign behind digits, a quoted quote, a string that looks like a comment and a comment that
is never closed; and an integer out of range behind one that a sign keeps in range. -/
theorem tokenize_longest_match_overlaps :
    (∃ pieces, Split "12__'\"A\"\x7b\"\x7b\"".toList pieces ∧
      Stand pieces [.op (.integer (-12)), .op (.primitive .negate), .op (.character 34),
        .op (.print "\x7b")]) ∧
    (∃ pieces before piece after,
      Split "9223372036854775808_ 9223372036854775808'".toList pieces ∧
      pieces = before ++ piece :: after ∧ OutOfRange piece ∧
      String.ofList piece = "9223372036854775808") := by
  constructor
  · have read : tokenize "12__'\"A\"\x7b\"\x7b\"" =
        .ok [⟨1, .op (.integer (-12))⟩, ⟨1, .op (.primitive .negate)⟩, ⟨1, .op (.character 34)⟩,
          ⟨1, .op (.print "\x7b")⟩] := by with_unfolding_all rfl
    obtain ⟨pieces, split, -, -, -, stand, -⟩ :=
      tokenize_longest_match "12__'\"A\"\x7b\"\x7b\""
    exact ⟨pieces, split, (stand _ read _).2 rfl⟩
  · have failed : tokenize "9223372036854775808_ 9223372036854775808'" =
        .error ⟨1, .literalTooLarge "9223372036854775808"⟩ := by with_unfolding_all rfl
    obtain ⟨pieces, split, -, -, -, -, stops⟩ :=
      tokenize_longest_match "9223372036854775808_ 9223372036854775808'"
    obtain ⟨before, piece, after, cut, -, large, reported⟩ := stops _ failed
    injection reported with reported
    exact ⟨pieces, before, piece, after, split, cut, large, reported.symm⟩

end FalseLang
