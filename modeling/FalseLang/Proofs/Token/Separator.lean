import FalseLang.Proofs.Code.Tokens
import FalseLang.Proofs.Token.Cut

/-
  Separators: a source text can be cut wherever something separates.

  What a character means depends on what stands before it: a quote mark takes the
  next character, a string and a comment take all up to their end, and an integer
  takes digits and the sign. So the lexemes of a text may change if another text is
  put behind it. They do not if the first text does not end inside a lexeme
  (`EndsClosed`) and the second does not go on with an integer (`Stops`). Only a run
  of blanks may get longer, and that stands for nothing. `tokensFrom_append` states
  this for tokens, and `tokenize_separated` for two sources with a separator between
  them.
-/

namespace FalseLang

/-! ## Texts that do not end inside a lexeme -/

/-- A lexeme that nothing but the end of the text has ended. -/
def Lexeme.isOpen : Lexeme → Bool
  | .danglingQuote | .unterminatedString _ | .comment _ false => true
  | _ => false

/-- The text does not end behind a lone quote mark, nor inside a string or a comment. -/
def EndsClosed (text : List Char) : Prop := (lexemes text).getLast?.any Lexeme.isOpen = false

instance (text : List Char) : Decidable (EndsClosed text) :=
  inferInstanceAs (Decidable ((lexemes text).getLast?.any Lexeme.isOpen = false))

/-- Nothing is left behind an open lexeme. -/
theorem Cut.eq_nil_of_isOpen {text rest : List Char} {l : Lexeme} (cut : Cut text l rest)
    (h : l.isOpen = true) : rest = [] := by
  cases cut with
  | danglingQuote | unterminatedString | openComment => rfl
  | signed | unsigned | character | string | comment | newline | blanks | single => cases h

/-- So an open lexeme is the last one, and no other has to be looked at. -/
theorem endsClosed_cons {c : Char} {cs rest : List Char} {l : Lexeme}
    (cut : Cut (c :: cs) l rest) :
    EndsClosed (c :: cs) ↔ l.isOpen = false ∧ EndsClosed rest := by
  unfold EndsClosed
  rw [lexemes_cons, cut.next_eq]
  cases rest with
  | nil => simp
  | cons d ds =>
    have closed : l.isOpen = false := by
      cases h : l.isOpen with
      | false => rfl
      | true => cases cut.eq_nil_of_isOpen h
    rw [lexemes_cons, List.getLast?_cons_cons]
    simp only [closed, true_and]

/-! ## A cut before more text -/

theorem Stops.append {a b : List Char} (first : Stops a) (second : Stops b) : Stops (a ++ b) := by
  cases a with
  | nil => exact second
  | cons c rest => exact first

/-- Text behind a closed lexeme does not change it, unless it makes a run of blanks longer. -/
theorem Cut.append {text rest more : List Char} {l : Lexeme} (cut : Cut text l rest)
    (closed : l.isOpen = false) (stops : Stops more) :
    Cut (text ++ more) l (rest ++ more) ∨ ∃ run, l = .blanks run := by
  cases cut with
  | signed digit digits rest => exact Or.inl (by simpa using Cut.signed digit digits (rest ++ more))
  | unsigned digit digits ends =>
    exact Or.inl (by simpa using Cut.unsigned digit digits (ends.append stops))
  | character c rest => exact Or.inl (.character c (rest ++ more))
  | danglingQuote => cases closed
  | string inside rest => exact Or.inl (by simpa using Cut.string inside (rest ++ more))
  | unterminatedString inside => cases closed
  | comment inside rest => exact Or.inl (by simpa using Cut.comment inside (rest ++ more))
  | openComment inside => cases closed
  | newline rest => exact Or.inl (.newline (rest ++ more))
  | blanks => exact Or.inr ⟨_, rfl⟩
  | single plain rest => exact Or.inl (.single plain (rest ++ more))

/-- The first lexeme of a text can be read before what follows the text is looked at. -/
theorem tokensFrom_cut_append {c : Char} {cs rest more : List Char} {l : Lexeme}
    (cut : Cut (c :: cs) l rest) (closed : l.isOpen = false) (stops : Stops more) (line : Nat) :
    tokensFrom line (lexemes (c :: cs ++ more)) =
      tokensFrom line (l :: lexemes (rest ++ more)) := by
  rcases cut.append closed stops with longer | ⟨run, rfl⟩
  · rw [List.cons_append] at longer ⊢
    rw [lexemes_cons, longer.next_eq]
  · cases cut with
    | @blanks c run blank others _ ends =>
      have all : ∀ d ∈ c :: run, isBlank d = true := by simpa using ⟨blank, others⟩
      have newlines : (Lexeme.blanks (c :: run)).newlines = 0 := count_newline_of_blanks all
      rw [← List.cons_append, List.append_assoc, tokensFrom_blanks all, tokensFrom_cons_none rfl,
        newlines, Nat.add_zero]

/-! ## A text before another -/

theorem Cut.count_newline {c : Char} {cs rest : List Char} {l : Lexeme}
    (cut : Cut (c :: cs) l rest) : (c :: cs).count '\n' = l.newlines + rest.count '\n' := by
  have whole := Lexeme.next_text c cs
  rw [cut.next_eq] at whole
  rw [← whole, List.count_append, Lexeme.newlines]

/-- The tokens of a text and of what follows it are read one after the other. -/
theorem tokensFrom_append {text more : List Char} (closed : EndsClosed text) (stops : Stops more)
    (line : Nat) :
    tokensFrom line (lexemes (text ++ more)) = do
      let before ← tokensFrom line (lexemes text)
      let after ← tokensFrom (line + text.count '\n') (lexemes more)
      return before ++ after := by
  match text with
  | [] =>
    rw [lexemes_nil, tokensFrom_nil, List.nil_append, List.count_nil, Nat.add_zero]
    cases tokensFrom line (lexemes more) <;> rfl
  | c :: cs =>
    obtain ⟨l, rest, cut⟩ := exists_cut c cs
    obtain ⟨first, others⟩ := (endsClosed_cons cut).1 closed
    have shorter : rest.length < (c :: cs).length := by
      have := Lexeme.next_length c cs
      rwa [cut.next_eq] at this
    have ih := tokensFrom_append others stops (line + l.newlines)
    rw [tokensFrom_cut_append cut first stops, lexemes_cons, cut.next_eq, cut.count_newline,
      ← Nat.add_assoc]
    cases token : l.token with
    | error d =>
      rw [tokensFrom_cons_error token, tokensFrom_cons_error token]
      rfl
    | ok meaning =>
      cases meaning with
      | none => rw [tokensFrom_cons_none token, tokensFrom_cons_none token, ih]
      | some t =>
        rw [tokensFrom_cons_some token, tokensFrom_cons_some token, ih]
        cases tokensFrom (line + l.newlines) (lexemes rest) with
        | error e => rfl
        | ok before => cases tokensFrom (line + l.newlines + rest.count '\n') (lexemes more) <;> rfl
termination_by text.length
decreasing_by exact shorter

/-! ## Separators -/

/-- A mix of blanks, line ends, closed comments and characters without a meaning. -/
inductive Separates : List Char → Prop where
  | blank {c : Char} (h : isBlank c = true) : Separates [c]
  | newline : Separates ['\n']
  | comment {text : List Char} (inside : '\x7d' ∉ text) : Separates ('\x7b' :: (text ++ ['\x7d']))
  | unused {c : Char} (plain : isPlain c = true) (unknown : Token.ofChar? c = none) : Separates [c]
  | append {a b : List Char} (first : Separates a) (second : Separates b) : Separates (a ++ b)

/-- A separator ends an integer, whatever follows it. -/
theorem Separates.stops {separator : List Char} (h : Separates separator) (rest : List Char) :
    Stops (separator ++ rest) := by
  induction h generalizing rest with
  | @blank c blank =>
    rintro d ⟨⟩
    simp only [isBlank, Bool.or_eq_true, beq_iff_eq] at blank
    rcases blank with ((rfl | rfl) | rfl) | rfl <;> decide
  | newline =>
    rintro d ⟨⟩
    decide
  | comment inside =>
    rintro d ⟨⟩
    decide
  | @unused c plain unknown =>
    rintro d ⟨⟩
    constructor
    · simp only [isPlain, Bool.not_eq_true', Bool.or_eq_false_iff] at plain
      exact plain.1.1.1.1.1
    · rintro rfl
      cases unknown
  | append first second before behind =>
    rw [List.append_assoc]
    exact before _

/-- A lexeme that stands for nothing only moves the line. -/
theorem tokensFrom_cut {c : Char} {cs rest : List Char} {l : Lexeme} (cut : Cut (c :: cs) l rest)
    (nothing : l.token = .ok none) (line : Nat) :
    tokensFrom line (lexemes (c :: cs)) = tokensFrom (line + l.newlines) (lexemes rest) := by
  rw [lexemes_cons, cut.next_eq, tokensFrom_cons_none nothing]

/-- A separator stands for nothing and only moves the line, whatever follows it. -/
theorem tokensFrom_separator {separator : List Char} (h : Separates separator) (line : Nat)
    (rest : List Char) :
    tokensFrom line (lexemes (separator ++ rest)) =
      tokensFrom (line + separator.count '\n') (lexemes rest) := by
  induction h generalizing line rest with
  | @blank c blank =>
    have none_ends : [c].count '\n' = 0 := count_newline_of_blanks (by simpa using blank)
    rw [none_ends]
    exact tokensFrom_blank blank line rest
  | newline => exact tokensFrom_cut (.newline rest) rfl line
  | @comment text inside =>
    have cut : Cut ('\x7b' :: (text ++ ['\x7d'] ++ rest)) (.comment text true) rest := by
      simpa using Cut.comment inside rest
    exact tokensFrom_cut cut rfl line
  | @unused c plain unknown =>
    exact tokensFrom_cut (.single plain rest) (by rw [Lexeme.token, unknown]) line
  | @append a b first second before behind =>
    rw [List.append_assoc, before, behind, List.count_append, Nat.add_assoc]

/-! ## Lines -/

theorem Lexeme.lineFrom_add (l : Lexeme) (line k : Nat) :
    l.lineFrom (line + k) = l.lineFrom line + k := by
  unfold Lexeme.lineFrom
  split <;> omega

/-- Reading from a later line gives the same tokens, or the same defect, later. -/
theorem tokensFrom_add (line k : Nat) (ls : List Lexeme) :
    tokensFrom (line + k) ls =
      ((tokensFrom line ls).map (List.map (Located.mapLine (· + k)))).mapError
        (Located.mapLine (· + k)) := by
  induction ls generalizing line with
  | nil => rfl
  | cons l rest ih =>
    have later : line + k + l.newlines = line + l.newlines + k := by omega
    cases token : l.token with
    | error d =>
      rw [tokensFrom_cons_error token, tokensFrom_cons_error token, l.lineFrom_add]
      rfl
    | ok meaning =>
      cases meaning with
      | none => rw [tokensFrom_cons_none token, tokensFrom_cons_none token, later, ih]
      | some t =>
        rw [tokensFrom_cons_some token, tokensFrom_cons_some token, later, ih, l.lineFrom_add]
        cases tokensFrom (line + l.newlines) rest <;> rfl

/-- The tokens of two sources with a separator between them are those of the first, and
those of the second on later lines. -/
theorem tokenize_separated {first separator : String} (closed : EndsClosed first.toList)
    (separates : Separates separator.toList) (second : String) :
    let k := (first ++ separator).toList.count '\n'
    tokenize (first ++ separator ++ second) = do
      let before ← tokenize first
      let after ← ((tokenize second).map (List.map (Located.mapLine (· + k)))).mapError
        (Located.mapLine (· + k))
      return before ++ after := by
  intro k
  have lines : k = first.toList.count '\n' + separator.toList.count '\n' := by
    simp only [k, String.toList_append, List.count_append]
  have behind :=
    calc tokensFrom (1 + first.toList.count '\n') (lexemes (separator.toList ++ second.toList))
      _ = tokensFrom (1 + first.toList.count '\n' + separator.toList.count '\n')
            (lexemes second.toList) := tokensFrom_separator separates _ _
      _ = tokensFrom (1 + k) (lexemes second.toList) := by rw [lines, Nat.add_assoc]
      _ = ((tokenize second).map (List.map (Located.mapLine (· + k)))).mapError
            (Located.mapLine (· + k)) := tokensFrom_add 1 k _
  rw [tokenize, String.toList_append, String.toList_append, List.append_assoc,
    tokensFrom_append closed (separates.stops second.toList), behind]
  rfl

end FalseLang
