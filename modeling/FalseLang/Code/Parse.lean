import FalseLang.Token.Read

/-
  Parsing: the code that a sequence of tokens stands for.

  Brackets need not be balanced. A quotation that is still open where the tokens
  end is closed there, and a closing bracket that closes nothing ends the
  program, whatever follows it. The instructions read so far are kept in
  reverse, one list for each quotation that is open, so that nesting costs
  memory and nothing else.
-/

namespace FalseLang

/-- A quotation that is still open: the line of its bracket, and the
instructions before it, in reverse. -/
structure Unclosed where
  line : Nat
  before : List Instruction

/-- A program, and the tokens behind the closing bracket that ended it early. -/
structure Parsed where
  program : Code
  ignored : List (Located Token)

/-- The code read so far, given in reverse, once all open quotations are closed. -/
def closeAll (current : List Instruction) : List Unclosed → Code
  | [] => current.reverse
  | u :: outer => closeAll (.quotation u.line current.reverse :: u.before) outer

/-- Parses tokens inside open quotations, the innermost first, behind
instructions given in reverse. -/
def parseInside (current : List Instruction) (unclosed : List Unclosed) :
    List (Located Token) → Except ParseError Parsed
  | [] => .ok ⟨closeAll current unclosed, []⟩
  | ⟨line, .op o⟩ :: rest => parseInside (.op line o :: current) unclosed rest
  | ⟨line, .opening⟩ :: rest => parseInside [] (⟨line, current⟩ :: unclosed) rest
  | ⟨_, .closing⟩ :: rest =>
    match unclosed with
    | [] => .ok ⟨current.reverse, rest⟩
    | u :: outer => parseInside (.quotation u.line current.reverse :: u.before) outer rest
  | ⟨line, .danglingQuote⟩ :: _ => .error ⟨line, .malformedLiteral⟩
  | ⟨line, .unterminatedString⟩ :: _ => .error ⟨line, .unterminatedString⟩

/-- The program that tokens stand for. -/
def parseTokens (tokens : List (Located Token)) : Except ParseError Parsed :=
  parseInside [] [] tokens

/-- The program that a source text stands for. -/
def parse (source : String) : Except ParseError Code := do
  let tokens ← tokenize source
  let parsed ← parseTokens tokens
  return parsed.program

end FalseLang
