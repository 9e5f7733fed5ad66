import FalseLang.Located

/-
  Defects: why a source text is not a program.

  A defect is a cause without a place; `ParseError` adds the line it is
  reported on, and `ParseError.message` is the text shown to the user.
-/

namespace FalseLang

/-- Why a source text is refused. -/
inductive Defect where
  /-- A quote mark is the last character, so that it quotes nothing. -/
  | malformedLiteral
  /-- A string is still open where the text ends. -/
  | unterminatedString
  /-- An integer literal, given as it is written, is outside the range of integers. -/
  | literalTooLarge (literal : String)
  deriving DecidableEq, Repr

/-- What a defect is, as a sentence. -/
def Defect.describe : Defect → String
  | .malformedLiteral => "\"'\" must precede a character."
  | .unterminatedString => "String literal is never closed."
  | .literalTooLarge literal => "Literal " ++ literal ++ " is too large."

/-- A defect and the line it is reported on. -/
abbrev ParseError := Located Defect

def ParseError.message (e : ParseError) : String := e.report Defect.describe

end FalseLang
