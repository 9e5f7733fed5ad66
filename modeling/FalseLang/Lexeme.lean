import FalseLang.Token

/-
  Lexemes: the slices a source text falls into.

  A source text is cut from left to right. `Lexeme.next` takes one lexeme off
  its front, as long a one as can be had there, and `lexemes` repeats it until
  the text is used up. No character is lost: `next_text` says so of one cut and
  `lexemes_text` of the whole text. `lexemes_cons` is the equation to reason
  with; the definition itself collects the lexemes in reverse, so that it runs
  in constant space on texts of any length.
-/

namespace FalseLang

/-- A slice of a source text. -/
inductive Lexeme where
  /-- Decimal digits, and whether the sign follows them. -/
  | integer (digits : List Char) (negated : Bool)
  /-- A quote mark and the character it quotes. -/
  | character (c : Char)
  /-- A quote mark with nothing behind it. -/
  | danglingQuote
  /-- A text between two double quotes. -/
  | string (text : List Char)
  /-- A double quote and all that follows, in which there is no second one. -/
  | unterminatedString (text : List Char)
  /-- A text in braces; the last one of a source may lack its closing brace. -/
  | comment (text : List Char) (closed : Bool)
  | newline
  | blanks (run : List Char)
  | single (c : Char)
  deriving DecidableEq, Repr

/-- Blanks separate lexemes and mean nothing: space, tab, carriage return and form feed. -/
def isBlank (c : Char) : Bool := c == ' ' || c == '\t' || c == '\r' || c == '\x0c'

namespace Lexeme

/-- The characters a lexeme was cut from. -/
def text : Lexeme → List Char
  | .integer digits negated => if negated then digits ++ ['_'] else digits
  | .character c => ['\'', c]
  | .danglingQuote => ['\'']
  | .string text => '"' :: text ++ ['"']
  | .unterminatedString text => '"' :: text
  | .comment text closed => if closed then '\x7b' :: text ++ ['\x7d'] else '\x7b' :: text
  | .newline => ['\n']
  | .blanks run => run
  | .single c => [c]

/-- Cuts an integer off, given its first digit. -/
def nextInteger (c : Char) (rest : List Char) : Lexeme × List Char :=
  match rest.dropWhile Char.isDigit with
  | '_' :: after => (.integer (c :: rest.takeWhile Char.isDigit) true, after)
  | after => (.integer (c :: rest.takeWhile Char.isDigit) false, after)

/-- Cuts a character literal off, given what follows its quote mark. -/
def nextCharacter : List Char → Lexeme × List Char
  | [] => (.danglingQuote, [])
  | c :: after => (.character c, after)

/-- Cuts a string off, given what follows its opening quote. -/
def nextString (rest : List Char) : Lexeme × List Char :=
  match rest.dropWhile (· != '"') with
  | [] => (.unterminatedString rest, [])
  | _ :: after => (.string (rest.takeWhile (· != '"')), after)

/-- Cuts a comment off, given what follows its opening brace. -/
def nextComment (rest : List Char) : Lexeme × List Char :=
  match rest.dropWhile (· != '\x7d') with
  | [] => (.comment rest false, [])
  | _ :: after => (.comment (rest.takeWhile (· != '\x7d')) true, after)

/-- Cuts one lexeme off a text given by its first character and the rest. -/
def next (c : Char) (rest : List Char) : Lexeme × List Char :=
  if c.isDigit then nextInteger c rest
  else if c = '\'' then nextCharacter rest
  else if c = '"' then nextString rest
  else if c = '\x7b' then nextComment rest
  else if c = '\n' then (.newline, rest)
  else if isBlank c then (.blanks (c :: rest.takeWhile isBlank), rest.dropWhile isBlank)
  else (.single c, rest)

/-! ## A cut loses nothing -/

theorem nextInteger_text (c : Char) (rest : List Char) :
    (nextInteger c rest).1.text ++ (nextInteger c rest).2 = c :: rest := by
  have whole := List.takeWhile_append_dropWhile (p := Char.isDigit) (l := rest)
  unfold nextInteger
  split
  · rename_i after h
    rw [h] at whole
    simp [text, whole]
  · simp [text, whole]

theorem nextCharacter_text (rest : List Char) :
    (nextCharacter rest).1.text ++ (nextCharacter rest).2 = '\'' :: rest := by
  cases rest <;> rfl

/-- The element at which `dropWhile` stops is the one it was looking for. -/
theorem head_of_dropWhile_ne {d e : Char} {rest after : List Char}
    (h : rest.dropWhile (· != d) = e :: after) : e = d := by
  have stops := List.head?_dropWhile_not (· != d) rest
  rw [h] at stops
  simpa using stops

theorem nextString_text (rest : List Char) :
    (nextString rest).1.text ++ (nextString rest).2 = '"' :: rest := by
  have whole := List.takeWhile_append_dropWhile (p := (· != '"')) (l := rest)
  unfold nextString
  split
  · simp [text]
  · rename_i e after h
    rw [h, head_of_dropWhile_ne h] at whole
    simp [text, whole]

theorem nextComment_text (rest : List Char) :
    (nextComment rest).1.text ++ (nextComment rest).2 = '\x7b' :: rest := by
  have whole := List.takeWhile_append_dropWhile (p := (· != '\x7d')) (l := rest)
  unfold nextComment
  split
  · simp [text]
  · rename_i e after h
    rw [h, head_of_dropWhile_ne h] at whole
    simp [text, whole]

/-- The lexeme cut off and the text behind it make up the text that was there. -/
theorem next_text (c : Char) (rest : List Char) :
    (next c rest).1.text ++ (next c rest).2 = c :: rest := by
  unfold next
  split
  · exact nextInteger_text c rest
  split
  · rename_i h
    rw [h]
    exact nextCharacter_text rest
  split
  · rename_i h
    rw [h]
    exact nextString_text rest
  split
  · rename_i h
    rw [h]
    exact nextComment_text rest
  split
  · rename_i h
    rw [h]
    rfl
  split
  · simp [text, List.takeWhile_append_dropWhile]
  · rfl

/-- A lexeme that `next` cuts off is not empty. -/
theorem next_text_ne_nil (c : Char) (rest : List Char) : (next c rest).1.text ≠ [] := by
  unfold next nextInteger nextCharacter nextString nextComment
  repeat' split
  all_goals simp [text]

/-- A cut leaves a shorter text behind. -/
theorem next_length (c : Char) (rest : List Char) :
    (next c rest).2.length < (c :: rest).length := by
  have whole := congrArg List.length (next_text c rest)
  have some_text := List.length_pos_iff.2 (next_text_ne_nil c rest)
  rw [List.length_append] at whole
  omega

end Lexeme

/-! ## The whole text -/

/-- Cuts a text into lexemes and puts them in reverse before those already cut. -/
def lexemesOnto (cut : List Lexeme) : List Char → List Lexeme
  | [] => cut
  | c :: rest => lexemesOnto ((Lexeme.next c rest).1 :: cut) (Lexeme.next c rest).2
termination_by text => text.length
decreasing_by exact Lexeme.next_length c rest

/-- The lexemes of a text, from left to right. -/
def lexemes (text : List Char) : List Lexeme := (lexemesOnto [] text).reverse

/-- Lexemes already cut stay where they are. -/
theorem lexemesOnto_append (more cut : List Lexeme) (text : List Char) :
    lexemesOnto (more ++ cut) text = lexemesOnto more text ++ cut := by
  fun_induction lexemesOnto more text with
  | case1 more => rw [lexemesOnto]
  | case2 more c rest ih => rw [lexemesOnto, ← ih, List.cons_append]

@[simp]
theorem lexemes_nil : lexemes [] = [] := by
  simp [lexemes, lexemesOnto]

/-- The lexemes of a text are the first one and those of what is left. -/
theorem lexemes_cons (c : Char) (rest : List Char) :
    lexemes (c :: rest) = (Lexeme.next c rest).1 :: lexemes (Lexeme.next c rest).2 := by
  have split := lexemesOnto_append [] [(Lexeme.next c rest).1] (Lexeme.next c rest).2
  rw [List.nil_append] at split
  simp [lexemes, lexemesOnto, split]

/-- The lexemes of a text, put together again, are the text. -/
theorem lexemes_text (text : List Char) : (lexemes text).flatMap Lexeme.text = text := by
  match text with
  | [] => simp
  | c :: rest =>
    rw [lexemes_cons, List.flatMap_cons, lexemes_text (Lexeme.next c rest).2,
      Lexeme.next_text]
termination_by text.length
decreasing_by exact Lexeme.next_length c rest

end FalseLang
