import FalseLang.Letter
import FalseLang.Primitive

/-
  Code: the instructions of a program.

  An instruction is either an operation or a quotation, which holds further
  code. Both carry the line they were read from. Operations that do not look
  into a quotation form a type of their own, `Op`, which tokens share.
-/

namespace FalseLang

/-- An operation: everything an instruction can be except a quotation. -/
inductive Op where
  | integer (value : Int64)
  /-- Push the code of a character. -/
  | character (code : Int64)
  /-- Push the name of a variable. -/
  | letter (name : Letter)
  | primitive (p : Primitive)
  | print (text : String)
  /-- Run the quotation on top; if conditional, only where the value below is true. -/
  | execute (conditional : Bool)
  /-- Run the quotation on top as long as the one below it leaves true. -/
  | loop
  | store
  | load
  deriving DecidableEq, Repr

/-- An instruction and the line it was read from. A quotation has the line of its
opening bracket. -/
inductive Instruction where
  | op (line : Nat) (op : Op)
  | quotation (line : Nat) (body : List Instruction)
  deriving Repr

abbrev Code := List Instruction

def Instruction.line : Instruction → Nat
  | .op line _ => line
  | .quotation line _ => line

end FalseLang
