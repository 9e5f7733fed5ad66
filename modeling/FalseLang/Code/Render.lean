import FalseLang.Code.Flatten

/-
  Rendering: code as source text.

  Tokens are written one after the other with a space between two of them,
  except inside a bracket next to it.
-/

namespace FalseLang

/-- Writes tokens behind a text; `glued` says that the first needs no space
before it. -/
def spellOnto (text : String) (glued : Bool) : List Token → String
  | [] => text
  | t :: rest =>
    let text := if glued || t == .closing then text else text.push ' '
    spellOnto (text ++ t.text) (t == .opening) rest

/-- Tokens as source text. -/
def spell (tokens : List Token) : String := spellOnto "" true tokens

/-- Code as source text. -/
def Code.render (code : Code) : String := spell (code.flatten.toList.map Located.val)

def Instruction.render (i : Instruction) : String := Code.render [i]

end FalseLang
