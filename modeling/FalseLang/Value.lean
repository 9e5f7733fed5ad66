import FalseLang.Code.Flatten
import FalseLang.Fault

/-
  Values: what the stack and the variables hold.

  A value is an integer, the body of a quotation or the name of a variable. An
  operation that wants one kind and meets another raises a fault that names
  both; characters and truth values are integers.
-/

namespace FalseLang

/-- What the stack and the variables hold. -/
inductive Value where
  | integer (n : Int64)
  | quotation (body : Code)
  | name (letter : Letter)
  deriving Repr

namespace Value

def kind : Value → Kind
  | .integer _ => .integer
  | .quotation _ => .quotation
  | .name _ => .name

/-- The fault of an operation that wants another kind of value. -/
def mismatch (symbol : Char) (expected : Kind) (v : Value) : Fault :=
  .typeMismatch symbol expected v.kind

/-- The integer that an operation wants. -/
def toInteger (symbol : Char) : Value → Except Fault Int64
  | .integer n => .ok n
  | v => .error (v.mismatch symbol .integer)

/-- The body of the quotation that an operation wants. -/
def toQuotation (symbol : Char) : Value → Except Fault Code
  | .quotation body => .ok body
  | v => .error (v.mismatch symbol .quotation)

/-- The name of the variable that an operation wants. -/
def toName (symbol : Char) : Value → Except Fault Letter
  | .name letter => .ok letter
  | v => .error (v.mismatch symbol .name)

/-- The truth value that an operation wants: every integer but zero is true. -/
def toBool (symbol : Char) (v : Value) : Except Fault Bool :=
  match v.toInteger symbol with
  | .ok n => .ok (n != 0)
  | .error fault => .error fault

/-- A value as it is listed; the body of a quotation is not shown. -/
def display : Value → String
  | .integer n => Integer.decimal n
  | .quotation _ => "<quotation>"
  | .name letter => "<var " ++ String.singleton letter.toChar ++ ">"

/-- Whether two values are the same; quotations are compared with their lines. -/
def same : Value → Value → Bool
  | .integer m, .integer n => m == n
  | .quotation a, .quotation b => a.same b
  | .name k, .name l => k == l
  | _, _ => false

theorem same_iff {v w : Value} : v.same w = true ↔ v = w := by
  cases v <;> cases w <;> simp [same, Code.same_iff]

end Value

end FalseLang
