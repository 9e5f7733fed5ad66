import FalseLang.Code
import FalseLang.Integer

/-
  Tokens: the units a source text is made of once blanks and comments are gone.

  A token is an operation, one of the two brackets, or one of the two ways in
  which a text can break off inside a literal. `Token.text` writes a token as
  source text.
-/

namespace FalseLang

/-- A unit of a source text. -/
inductive Token where
  | op (op : Op)
  | opening
  | closing
  /-- A quote mark at the very end of the text. -/
  | danglingQuote
  /-- A string that is still open at the end of the text. -/
  | unterminatedString
  deriving DecidableEq, Repr

namespace Token

/-- The token that a character stands for by itself. -/
def ofChar? (c : Char) : Option Token :=
  match c with
  | '[' => some .opening
  | ']' => some .closing
  | '!' => some (.op (.execute false))
  | '?' => some (.op (.execute true))
  | '#' => some (.op .loop)
  | ':' => some (.op .store)
  | ';' => some (.op .load)
  | c =>
    match Primitive.ofChar? c, Letter.ofChar? c with
    | some p, _ => some (.op (.primitive p))
    | none, some l => some (.op (.letter l))
    | none, none => none

end Token

/-- An integer as a literal: the sign is written behind the digits. -/
def Integer.literal (n : Int64) : String :=
  if n.toInt < 0 then toString n.toInt.natAbs ++ "_" else toString n.toInt.natAbs

/-- The character shown for a code that belongs to no character. -/
def replacementChar : Char := '\ufffd'

def Op.text : Op → String
  | .integer value => Integer.literal value
  | .character code => "'" ++ String.singleton ((Integer.toChar? code).getD replacementChar)
  | .print text => "\"" ++ text ++ "\""
  | .letter name => String.singleton name.toChar
  | .primitive p => String.singleton p.symbol
  | .execute false => "!"
  | .execute true => "?"
  | .loop => "#"
  | .store => ":"
  | .load => ";"

def Token.text : Token → String
  | .op o => o.text
  | .opening => "["
  | .closing => "]"
  | .danglingQuote => "'"
  | .unterminatedString => "\""

end FalseLang
