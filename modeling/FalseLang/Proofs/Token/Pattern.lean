import FalseLang.Proofs.Token.Cut

/-
  Patterns: what the lexemes of the language look like, as regular expressions.

  `tokenRules` has one pattern for each way to write a token, with what a text of
  that pattern is read as; `skippedPatterns` has the patterns of what stands for
  nothing. They say which texts are lexemes and nothing about how a source text is
  cut. `declared_iff` is the link to lexemes: the texts of the patterns are the
  texts of the lexemes that are well formed (`Lexeme.Formed`), except for single
  characters without a meaning. No two lexemes have the same text
  (`Lexeme.Formed.eq_of_text_eq`), and so no text is read in two ways.
-/

namespace FalseLang

/-- A regular expression over characters. -/
inductive Regex where
  /-- One character of a class. -/
  | one (p : Char → Bool)
  | seq (a b : Regex)
  | alt (a b : Regex)
  | many (a : Regex)
  | optional (a : Regex)

namespace Regex

/-- The texts of a regular expression. -/
def Matches : Regex → List Char → Prop
  | .one p, text => ∃ c, text = [c] ∧ p c = true
  | .seq a b, text => ∃ u v, text = u ++ v ∧ a.Matches u ∧ b.Matches v
  | .alt a b, text => a.Matches text ∨ b.Matches text
  | .many a, text => ∃ parts : List (List Char), text = parts.flatten ∧ ∀ u ∈ parts, a.Matches u
  | .optional a, text => text = [] ∨ a.Matches text

/-- The character `c` and nothing else. -/
def char (c : Char) : Regex := .one (· == c)

/-- Any number of characters other than `c`. -/
def without (c : Char) : Regex := .many (.one (· != c))

/-- One or more characters of a class. -/
def run (p : Char → Bool) : Regex := .seq (.one p) (.many (.one p))

theorem matches_char {c : Char} {text : List Char} : (char c).Matches text ↔ text = [c] := by
  simp [char, Matches]

theorem matches_many_one {p : Char → Bool} {text : List Char} :
    (many (one p)).Matches text ↔ ∀ c ∈ text, p c = true := by
  constructor
  · rintro ⟨parts, rfl, each⟩ c mem
    obtain ⟨u, found, inside⟩ := List.mem_flatten.1 mem
    obtain ⟨d, rfl, holds⟩ := each u found
    rw [List.mem_singleton.1 inside]
    exact holds
  · intro all
    have whole : (text.map fun c => [c]).flatten = text := by
      rw [← List.flatMap_def, List.flatMap_singleton']
    refine ⟨text.map fun c => [c], whole.symm, fun u mem => ?_⟩
    obtain ⟨c, found, rfl⟩ := List.mem_map.1 mem
    exact ⟨c, rfl, all c found⟩

theorem matches_without {d : Char} {text : List Char} :
    (without d).Matches text ↔ d ∉ text := by
  rw [without, matches_many_one]
  constructor
  · intro all mem
    exact absurd (all d mem) (by simp)
  · exact all_bne_of_not_mem

theorem matches_run {p : Char → Bool} {text : List Char} :
    (run p).Matches text ↔ text ≠ [] ∧ ∀ c ∈ text, p c = true := by
  constructor
  · rintro ⟨u, v, rfl, ⟨c, rfl, first⟩, rest⟩
    exact ⟨by simp, by simpa using ⟨first, matches_many_one.1 rest⟩⟩
  · rintro ⟨nonempty, all⟩
    obtain ⟨c, cs, rfl⟩ := List.exists_cons_of_ne_nil nonempty
    have others : ∀ d ∈ cs, p d = true := fun d mem => all d (List.mem_cons_of_mem c mem)
    exact ⟨[c], cs, rfl, ⟨c, rfl, all c List.mem_cons_self⟩, matches_many_one.2 others⟩

theorem matches_seq_char {d : Char} {a : Regex} {text : List Char} :
    (seq (char d) a).Matches text ↔ ∃ rest, text = d :: rest ∧ a.Matches rest := by
  constructor
  · rintro ⟨u, v, rfl, first, rest⟩
    rw [matches_char.1 first]
    exact ⟨v, rfl, rest⟩
  · rintro ⟨rest, rfl, behind⟩
    exact ⟨[d], rest, rfl, matches_char.2 rfl, behind⟩

end Regex

/-! ## The patterns of the language -/

/-- The pattern of a token, and the token that a text of it is read as, if it is one. -/
structure TokenRule where
  pattern : Regex
  read : List Char → Option Token

/-- The exact value of an integer literal: digits, with a sign behind them or without. -/
def literalValue (text : List Char) : Int :=
  if text.getLast? = some '_' then -(Integer.ofDigits text.dropLast : Int)
  else Integer.ofDigits text

def integerRule : TokenRule where
  pattern := .seq (.run Char.isDigit) (.optional (.char '_'))
  read text := (Integer.ofInt? (literalValue text)).map fun value => .op (.integer value)

def characterRule : TokenRule where
  pattern := .seq (.char '\'') (.alt (.one (· != '\n')) (.char '\n'))
  read text := text[1]?.map fun c => .op (.character (Integer.ofChar c))

def danglingQuoteRule : TokenRule := ⟨.char '\'', fun _ => some .danglingQuote⟩

def letterRule : TokenRule where
  pattern := .one fun c => 'a' ≤ c && c ≤ 'z'
  read text := (text[0]?.bind Letter.ofChar?).map fun name => .op (.letter name)

def stringRule : TokenRule where
  pattern := .seq (.char '"') (.seq (.without '"') (.char '"'))
  read text := some (.op (.print (String.ofList (text.drop 1).dropLast)))

def unterminatedStringRule : TokenRule where
  pattern := .seq (.char '"') (.without '"')
  read _ := some .unterminatedString

/-- The tokens that are always written as the same character. -/
def signs : List (Char × Token) :=
  [('[', .opening), (']', .closing), ('!', .op (.execute false)), ('?', .op (.execute true)),
   ('#', .op .loop), (':', .op .store), (';', .op .load)] ++
  Primitive.opcodes.map fun (c, p) => (c, .op (.primitive p))

def signRule (sign : Char × Token) : TokenRule := ⟨.char sign.1, fun _ => some sign.2⟩

/-- The patterns of all tokens. -/
def tokenRules : List TokenRule :=
  [integerRule, characterRule, danglingQuoteRule, letterRule, stringRule,
   unterminatedStringRule] ++ signs.map signRule

def commentPattern : Regex :=
  .seq (.char '\x7b') (.seq (.without '\x7d') (.optional (.char '\x7d')))

/-- The patterns of what stands for no token: comments, line ends and blanks. -/
def skippedPatterns : List Regex :=
  [commentPattern, .char '\n', .run fun c => [' ', '\t', '\r', '\x0c'].contains c]

/-- The text is of one of the patterns. -/
def Declared (text : List Char) : Prop :=
  (∃ r ∈ tokenRules, r.pattern.Matches text) ∨ ∃ p ∈ skippedPatterns, p.Matches text

/-! ## The texts of the patterns -/

theorem matches_integer {text : List Char} : integerRule.pattern.Matches text ↔
    ∃ digits negated, digits ≠ [] ∧ (∀ d ∈ digits, d.isDigit = true) ∧
      Lexeme.text (.integer digits negated) = text := by
  constructor
  · rintro ⟨digits, sign, rfl, run, none_left | sign_left⟩
    · obtain ⟨nonempty, all⟩ := Regex.matches_run.1 run
      exact ⟨digits, false, nonempty, all, by simp [Lexeme.text, none_left]⟩
    · obtain ⟨nonempty, all⟩ := Regex.matches_run.1 run
      rw [Regex.matches_char.1 sign_left]
      exact ⟨digits, true, nonempty, all, rfl⟩
  · rintro ⟨digits, negated, nonempty, all, rfl⟩
    have run := Regex.matches_run.2 ⟨nonempty, all⟩
    cases negated with
    | true => exact ⟨digits, ['_'], rfl, run, Or.inr (Regex.matches_char.2 rfl)⟩
    | false => exact ⟨digits, [], by simp [Lexeme.text], run, Or.inl rfl⟩

theorem matches_character {text : List Char} :
    characterRule.pattern.Matches text ↔ ∃ c, text = ['\'', c] := by
  unfold characterRule
  rw [Regex.matches_seq_char]
  constructor
  · rintro ⟨rest, rfl, ⟨c, rfl, -⟩ | line_end⟩
    · exact ⟨c, rfl⟩
    · exact ⟨'\n', by rw [Regex.matches_char.1 line_end]⟩
  · rintro ⟨c, rfl⟩
    refine ⟨[c], rfl, ?_⟩
    by_cases line_end : c = '\n'
    · exact Or.inr (Regex.matches_char.2 (by rw [line_end]))
    · exact Or.inl ⟨c, rfl, by simpa using line_end⟩

theorem matches_string {text : List Char} :
    stringRule.pattern.Matches text ↔ ∃ inside, '"' ∉ inside ∧ text = '"' :: inside ++ ['"'] := by
  unfold stringRule
  rw [Regex.matches_seq_char]
  constructor
  · rintro ⟨_, rfl, inside, last, rfl, free, close⟩
    rw [Regex.matches_char.1 close]
    exact ⟨inside, Regex.matches_without.1 free, rfl⟩
  · rintro ⟨inside, free, rfl⟩
    exact ⟨_, rfl, inside, ['"'], rfl, Regex.matches_without.2 free, Regex.matches_char.2 rfl⟩

theorem matches_unterminatedString {text : List Char} :
    unterminatedStringRule.pattern.Matches text ↔
      ∃ inside, '"' ∉ inside ∧ text = '"' :: inside := by
  unfold unterminatedStringRule
  rw [Regex.matches_seq_char]
  simp only [Regex.matches_without, and_comm]

theorem matches_comment {text : List Char} : commentPattern.Matches text ↔
    ∃ inside closed, '\x7d' ∉ inside ∧ Lexeme.text (.comment inside closed) = text := by
  unfold commentPattern
  rw [Regex.matches_seq_char]
  constructor
  · rintro ⟨_, rfl, inside, last, rfl, free, none_left | close⟩
    · exact ⟨inside, false, Regex.matches_without.1 free, by simp [Lexeme.text, none_left]⟩
    · rw [Regex.matches_char.1 close]
      exact ⟨inside, true, Regex.matches_without.1 free, rfl⟩
  · rintro ⟨inside, closed, free, rfl⟩
    have before := Regex.matches_without.2 free
    cases closed with
    | true => exact ⟨_, rfl, inside, ['\x7d'], rfl, before, Or.inr (Regex.matches_char.2 rfl)⟩
    | false => exact ⟨inside, rfl, inside, [], by simp, before, Or.inl rfl⟩

theorem matches_blanks {text : List Char} :
    (Regex.run fun c => [' ', '\t', '\r', '\x0c'].contains c).Matches text ↔
      text ≠ [] ∧ ∀ c ∈ text, isBlank c = true := by
  have same : (fun c => [' ', '\t', '\r', '\x0c'].contains c) = isBlank := by
    funext c
    simp only [isBlank, List.contains_cons, List.contains_nil, Bool.or_false, Bool.or_assoc]
  rw [same, Regex.matches_run]

/-! ## Well-formed lexemes -/

/-- A lexeme that can be cut off some text. -/
def Lexeme.Formed : Lexeme → Prop
  | .integer digits _ => digits ≠ [] ∧ ∀ d ∈ digits, d.isDigit = true
  | .string inside | .unterminatedString inside => '"' ∉ inside
  | .comment inside _ => '\x7d' ∉ inside
  | .blanks run => run ≠ [] ∧ ∀ c ∈ run, isBlank c = true
  | .single c => isPlain c = true
  | .character _ | .danglingQuote | .newline => True

theorem Cut.formed {text rest : List Char} {l : Lexeme} (cut : Cut text l rest) : l.Formed := by
  cases cut with
  | signed digit digits => exact ⟨by simp, by simpa using ⟨digit, digits⟩⟩
  | unsigned digit digits => exact ⟨by simp, by simpa using ⟨digit, digits⟩⟩
  | character | danglingQuote | newline => trivial
  | string inside | unterminatedString inside => exact inside
  | comment inside | openComment inside => exact inside
  | blanks blank others => exact ⟨by simp, by simpa using ⟨blank, others⟩⟩
  | single plain => exact plain

namespace Lexeme.Formed

/-- The text of a well-formed lexeme, with nothing behind it, is cut as this lexeme. -/
theorem cut {l : Lexeme} (h : l.Formed) : Cut l.text l [] := by
  cases l with
  | integer digits negated =>
    obtain ⟨nonempty, all⟩ := h
    obtain ⟨c, cs, rfl⟩ := List.exists_cons_of_ne_nil nonempty
    have others : ∀ d ∈ cs, d.isDigit = true := fun d mem => all d (List.mem_cons_of_mem c mem)
    have first := all c List.mem_cons_self
    cases negated with
    | true => exact .signed first others []
    | false =>
      have stops : Stops [] := fun d mem => by cases mem
      simpa [text] using Cut.unsigned first others stops
  | character c => exact .character c []
  | danglingQuote => exact .danglingQuote
  | string inside => exact .string h []
  | unterminatedString inside => exact .unterminatedString h
  | comment inside closed =>
    cases closed with
    | true => exact .comment h []
    | false => exact .openComment h
  | newline => exact .newline []
  | blanks run =>
    obtain ⟨nonempty, all⟩ := h
    obtain ⟨c, cs, rfl⟩ := List.exists_cons_of_ne_nil nonempty
    have others : ∀ d ∈ cs, isBlank d = true := fun d mem => all d (List.mem_cons_of_mem c mem)
    have ends : ∀ d ∈ ([] : List Char).head?, isBlank d = false := fun d mem => by cases mem
    simpa [text] using Cut.blanks (all c List.mem_cons_self) others ends
  | single c => exact .single h []

theorem text_ne_nil {l : Lexeme} (h : l.Formed) : l.text ≠ [] := by
  intro empty
  have cut := h.cut
  rw [empty] at cut
  cases cut

/-- Well-formed lexemes are known by their texts. -/
theorem eq_of_text_eq {k l : Lexeme} (hk : k.Formed) (hl : l.Formed) (h : k.text = l.text) :
    k = l := by
  obtain ⟨c, cs, text⟩ := List.exists_cons_of_ne_nil hl.text_ne_nil
  have first := hk.cut
  have second := hl.cut
  rw [h, text] at first
  rw [text] at second
  exact congrArg Prod.fst (first.next_eq.symm.trans second.next_eq)

end Lexeme.Formed

/-! ## Patterns and lexemes -/

/-- What a text of the rule's pattern stands for. Only an integer can be too large to be read. -/
def TokenRule.meaning (r : TokenRule) (text : List Char) : Except Defect (Option Token) :=
  match r.read text with
  | some t => .ok (some t)
  | none => .error (.literalTooLarge (String.ofList text))

theorem literalValue_text {digits : List Char} (all : ∀ d ∈ digits, d.isDigit = true)
    (negated : Bool) : literalValue (Lexeme.text (.integer digits negated)) =
      if negated then -(Integer.ofDigits digits : Int) else Integer.ofDigits digits := by
  cases negated with
  | true => simp [literalValue, Lexeme.text]
  | false =>
    have unsigned : digits.getLast? ≠ some '_' := by
      intro last
      exact absurd (all '_' (List.mem_of_getLast? last)) (by decide)
    simp [literalValue, Lexeme.text, unsigned]

theorem ofChar?_of_mem_signs {sign : Char × Token} (mem : sign ∈ signs) :
    isPlain sign.1 = true ∧ Token.ofChar? sign.1 = some sign.2 := by
  revert sign
  decide

/-- The letters are the characters from `a` to `z`. -/
theorem exists_letter {c : Char} (low : 'a' ≤ c) (high : c ≤ 'z') :
    ∃ name : Letter, name.toChar = c := by
  have range : 97 ≤ c.toNat ∧ c.toNat ≤ 122 := ⟨low, high⟩
  exact ⟨_, Letter.ofChar?_eq_some_iff.1 (dif_pos range)⟩

theorem letter_range (name : Letter) : 'a' ≤ name.toChar ∧ name.toChar ≤ 'z' := by
  obtain ⟨i⟩ := name
  revert i
  decide

/-- A character with a meaning of its own is a sign or a letter. -/
theorem sign_or_letter_of_ofChar? {c : Char} {t : Token} (h : Token.ofChar? c = some t) :
    (c, t) ∈ signs ∨ 'a' ≤ c ∧ c ≤ 'z' := by
  unfold Token.ofChar? at h
  split at h
  · cases h; exact Or.inl (by decide)
  · cases h; exact Or.inl (by decide)
  · cases h; exact Or.inl (by decide)
  · cases h; exact Or.inl (by decide)
  · cases h; exact Or.inl (by decide)
  · cases h; exact Or.inl (by decide)
  · cases h; exact Or.inl (by decide)
  · split at h
    · rename_i found
      cases h
      have listed := Primitive.mem_opcodes_iff.2 (Primitive.ofChar?_eq_some_iff.1 found)
      exact Or.inl (List.mem_append_right _ (List.mem_map.2 ⟨_, listed, rfl⟩))
    · rename_i found
      cases h
      rw [← Letter.ofChar?_eq_some_iff.1 found]
      exact Or.inr (letter_range _)
    · cases h

/-- A text of a token's pattern is that of a lexeme, which stands for what is read. -/
theorem exists_lexeme_of_tokenRule {r : TokenRule} {text : List Char} (mem : r ∈ tokenRules)
    (h : r.pattern.Matches text) :
    ∃ l : Lexeme, l.Formed ∧ l.text = text ∧ l.unknown? = none ∧ l.token = r.meaning text := by
  simp only [tokenRules, List.cons_append, List.nil_append, List.mem_cons, List.mem_map] at mem
  rcases mem with rfl | rfl | rfl | rfl | rfl | rfl | ⟨sign, mem, rfl⟩
  · obtain ⟨digits, negated, nonempty, all, rfl⟩ := matches_integer.1 h
    refine ⟨.integer digits negated, ⟨nonempty, all⟩, rfl, rfl, ?_⟩
    simp only [Lexeme.token, TokenRule.meaning, integerRule, literalValue_text all]
    cases Integer.ofInt? (if negated = true then -↑(Integer.ofDigits digits)
      else ↑(Integer.ofDigits digits)) <;> rfl
  · obtain ⟨c, rfl⟩ := matches_character.1 h
    exact ⟨.character c, trivial, rfl, rfl, rfl⟩
  · rw [Regex.matches_char.1 h]
    exact ⟨.danglingQuote, trivial, rfl, rfl, rfl⟩
  · obtain ⟨c, rfl, range⟩ := h
    simp only [Bool.and_eq_true, decide_eq_true_eq] at range
    obtain ⟨name, rfl⟩ := exists_letter range.1 range.2
    obtain ⟨plain, token⟩ := name.token_toChar
    refine ⟨.single name.toChar, plain, rfl, by simp [Lexeme.unknown?, token], ?_⟩
    simp [Lexeme.token, token, TokenRule.meaning, letterRule]
  · obtain ⟨inside, free, rfl⟩ := matches_string.1 h
    exact ⟨.string inside, free, rfl, rfl, by simp [Lexeme.token, TokenRule.meaning, stringRule]⟩
  · obtain ⟨inside, free, rfl⟩ := matches_unterminatedString.1 h
    exact ⟨.unterminatedString inside, free, rfl, rfl, rfl⟩
  · obtain ⟨plain, token⟩ := ofChar?_of_mem_signs mem
    rw [Regex.matches_char.1 h]
    refine ⟨.single sign.1, plain, rfl, by simp [Lexeme.unknown?, token], ?_⟩
    simp [Lexeme.token, token, TokenRule.meaning, signRule]

/-- A text of a pattern that is skipped is that of a lexeme, which stands for nothing. -/
theorem exists_lexeme_of_skipped {p : Regex} {text : List Char} (mem : p ∈ skippedPatterns)
    (h : p.Matches text) :
    ∃ l : Lexeme, l.Formed ∧ l.text = text ∧ l.unknown? = none ∧ l.token = .ok none := by
  simp only [skippedPatterns, List.mem_cons, List.not_mem_nil, or_false] at mem
  rcases mem with rfl | rfl | rfl
  · obtain ⟨inside, closed, free, rfl⟩ := matches_comment.1 h
    exact ⟨.comment inside closed, free, rfl, rfl, rfl⟩
  · rw [Regex.matches_char.1 h]
    exact ⟨.newline, trivial, rfl, rfl, rfl⟩
  · exact ⟨.blanks text, matches_blanks.1 h, rfl, rfl, rfl⟩

theorem declared_of_tokenRule {r : TokenRule} {text : List Char} (mem : r ∈ tokenRules)
    (h : r.pattern.Matches text) : Declared text := Or.inl ⟨r, mem, h⟩

theorem declared_of_skipped {p : Regex} {text : List Char} (mem : p ∈ skippedPatterns)
    (h : p.Matches text) : Declared text := Or.inr ⟨p, mem, h⟩

/-- Every lexeme has its pattern, unless it is a character without a meaning. -/
theorem Lexeme.Formed.declared {l : Lexeme} (h : l.Formed) (known : l.unknown? = none) :
    Declared l.text := by
  cases l with
  | integer digits negated =>
    exact declared_of_tokenRule (r := integerRule) (by simp [tokenRules])
      (matches_integer.2 ⟨digits, negated, h.1, h.2, rfl⟩)
  | character c =>
    exact declared_of_tokenRule (r := characterRule) (by simp [tokenRules])
      (matches_character.2 ⟨c, rfl⟩)
  | danglingQuote =>
    exact declared_of_tokenRule (r := danglingQuoteRule) (by simp [tokenRules])
      (Regex.matches_char.2 rfl)
  | string inside =>
    exact declared_of_tokenRule (r := stringRule) (by simp [tokenRules])
      (matches_string.2 ⟨inside, h, rfl⟩)
  | unterminatedString inside =>
    exact declared_of_tokenRule (r := unterminatedStringRule) (by simp [tokenRules])
      (matches_unterminatedString.2 ⟨inside, h, rfl⟩)
  | comment inside closed =>
    exact declared_of_skipped List.mem_cons_self (matches_comment.2 ⟨inside, closed, h, rfl⟩)
  | newline =>
    exact declared_of_skipped (p := .char '\n') (by simp [skippedPatterns])
      (Regex.matches_char.2 rfl)
  | blanks run =>
    exact declared_of_skipped (by simp [skippedPatterns]) (matches_blanks.2 h)
  | single c =>
    cases token : Token.ofChar? c with
    | none => simp [Lexeme.unknown?, token] at known
    | some t =>
      rcases sign_or_letter_of_ofChar? token with sign | letter
      · exact declared_of_tokenRule (r := signRule (c, t))
          (List.mem_append_right _ (List.mem_map_of_mem sign)) (Regex.matches_char.2 rfl)
      · exact declared_of_tokenRule (r := letterRule) (by simp [tokenRules])
          ⟨c, rfl, by simpa using letter⟩

/-- The texts of the patterns are the texts of lexemes. -/
theorem declared_iff {text : List Char} :
    Declared text ↔ ∃ l : Lexeme, l.Formed ∧ l.text = text ∧ l.unknown? = none := by
  constructor
  · rintro (⟨r, mem, h⟩ | ⟨p, mem, h⟩)
    · obtain ⟨l, formed, eq, known, -⟩ := exists_lexeme_of_tokenRule mem h
      exact ⟨l, formed, eq, known⟩
    · obtain ⟨l, formed, eq, known, -⟩ := exists_lexeme_of_skipped mem h
      exact ⟨l, formed, eq, known⟩
  · rintro ⟨l, formed, rfl, known⟩
    exact formed.declared known

end FalseLang
