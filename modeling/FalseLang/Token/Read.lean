import FalseLang.Defect
import FalseLang.Lexeme

/-
  Reading tokens: the tokens of a source text, each with its line.

  The text is cut into lexemes; each lexeme stands for one token or for none.
  A token has the line its lexeme starts on, which is one more than the number
  of line ends before it. The one exception is the literal of a line end, which
  counts the line end it quotes. Reading stops at the first integer literal that
  is out of range.
-/

namespace FalseLang

namespace Lexeme

/-- The token a lexeme stands for. Blanks, line ends, comments and characters
without a meaning stand for none. -/
def token : Lexeme → Except Defect (Option Token)
  | .integer digits negated =>
    let magnitude : Int := Integer.ofDigits digits
    match Integer.ofInt? (if negated then -magnitude else magnitude) with
    | some value => .ok (some (.op (.integer value)))
    | none => .error (.literalTooLarge (String.ofList (text (.integer digits negated))))
  | .character c => .ok (some (.op (.character (Integer.ofChar c))))
  | .danglingQuote => .ok (some .danglingQuote)
  | .string text => .ok (some (.op (.print (String.ofList text))))
  | .unterminatedString _ => .ok (some .unterminatedString)
  | .comment .. => .ok none
  | .newline => .ok none
  | .blanks _ => .ok none
  | .single c => .ok (Token.ofChar? c)

def newlines (l : Lexeme) : Nat := l.text.count '\n'

/-- The line a lexeme is reported on if it starts on a given one. -/
def lineFrom (start : Nat) : Lexeme → Nat
  | .character '\n' => start + 1
  | _ => start

end Lexeme

/-- Reads lexemes from a given line on, and puts the tokens in reverse before
those already read. -/
def tokensOnto (read : List (Located Token)) (line : Nat) :
    List Lexeme → Except ParseError (List (Located Token))
  | [] => .ok read
  | l :: rest =>
    match l.token with
    | .error defect => .error ⟨l.lineFrom line, defect⟩
    | .ok none => tokensOnto read (line + l.newlines) rest
    | .ok (some t) => tokensOnto (⟨l.lineFrom line, t⟩ :: read) (line + l.newlines) rest

/-- The tokens of lexemes of which the first starts on a given line. -/
def tokensFrom (line : Nat) (ls : List Lexeme) : Except ParseError (List (Located Token)) :=
  (tokensOnto [] line ls).map List.reverse

def tokenize (source : String) : Except ParseError (List (Located Token)) :=
  tokensFrom 1 (lexemes source.toList)

/-! ## Equations for the tokens of lexemes -/

/-- Tokens already read stay where they are. -/
theorem tokensOnto_eq (read : List (Located Token)) (line : Nat) (ls : List Lexeme) :
    tokensOnto read line ls = (tokensOnto [] line ls).map (· ++ read) := by
  induction ls generalizing read line with
  | nil => rfl
  | cons l rest ih =>
    unfold tokensOnto
    split
    · rfl
    · exact ih read _
    · rw [ih (_ :: read), ih [_]]
      cases tokensOnto [] (line + l.newlines) rest <;> simp [Except.map]

@[simp]
theorem tokensFrom_nil (line : Nat) : tokensFrom line [] = .ok [] := rfl

/-- A lexeme that stands for no token only moves the line. -/
theorem tokensFrom_cons_none {l : Lexeme} (h : l.token = .ok none) (line : Nat)
    (rest : List Lexeme) : tokensFrom line (l :: rest) = tokensFrom (line + l.newlines) rest := by
  simp [tokensFrom, tokensOnto, h]

/-- A lexeme that stands for a token puts it in front. -/
theorem tokensFrom_cons_some {l : Lexeme} {t : Token} (h : l.token = .ok (some t)) (line : Nat)
    (rest : List Lexeme) :
    tokensFrom line (l :: rest) =
      (tokensFrom (line + l.newlines) rest).map (⟨l.lineFrom line, t⟩ :: ·) := by
  simp only [tokensFrom, tokensOnto, h]
  rw [tokensOnto_eq]
  cases tokensOnto [] (line + l.newlines) rest <;> simp [Except.map]

/-- A lexeme that stands for no token because of a defect ends the reading. -/
theorem tokensFrom_cons_error {l : Lexeme} {d : Defect} (h : l.token = .error d) (line : Nat)
    (rest : List Lexeme) : tokensFrom line (l :: rest) = .error ⟨l.lineFrom line, d⟩ := by
  simp [tokensFrom, tokensOnto, h, Except.map]

/-! ## What reading passes over -/

/-- The character of a lexeme that means nothing in the language. Blanks and
comments have a meaning: they separate. -/
def Lexeme.unknown? : Lexeme → Option Char
  | .single c => if (Token.ofChar? c).isNone then some c else none
  | _ => none

/-- The characters without a meaning, with their lines, put in reverse before
those already found; the search ends where reading does. -/
def unknownOnto (found : List (Located Char)) (line : Nat) : List Lexeme → List (Located Char)
  | [] => found
  | l :: rest =>
    match l.token, l.unknown? with
    | .error _, _ => found
    | .ok _, none => unknownOnto found (line + l.newlines) rest
    | .ok _, some c => unknownOnto (⟨line, c⟩ :: found) (line + l.newlines) rest

/-- The characters of a source text that reading passes over because they mean
nothing, with their lines. -/
def unknownChars (source : String) : List (Located Char) :=
  (unknownOnto [] 1 (lexemes source.toList)).reverse

end FalseLang
