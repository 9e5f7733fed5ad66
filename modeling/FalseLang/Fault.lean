import FalseLang.Device.Error
import FalseLang.Letter
import FalseLang.Located

/-
  Faults: why a run stops before its end.

  A fault is a cause without a place. Operations raise faults; the machine adds
  the line of the instruction it was performing, which makes a `RuntimeError`.
  So nothing an operation does can depend on a line.
-/

namespace FalseLang

/-- The kinds of values a stack holds. -/
inductive Kind where
  | integer
  | quotation
  | name
  deriving DecidableEq, Repr

/-- What a kind is called in messages. -/
def Kind.describe : Kind → String
  | .integer => "integer"
  | .quotation => "quotation"
  | .name => "variable name"

/-- Why a run stops. A symbol is the character of the operation that failed. -/
inductive Fault where
  | stackUnderflow (symbol : Char)
  /-- A pick reaches below the bottom of the stack, or has a negative index. -/
  | indexOutOfRange (index : Int64) (depth : Nat)
  | typeMismatch (symbol : Char) (expected found : Kind)
  | unboundVariable (name : Letter)
  | divisionByZero
  /-- The exact result is not an integer of the language. -/
  | overflow (symbol : Char)
  /-- An integer to be written as a character is not the code of one. -/
  | invalidCharacter (code : Int64)
  /-- A quotation would run deeper inside others than is allowed. -/
  | recursionLimit (limit : Nat)
  | io (cause : DeviceError)
  deriving DecidableEq, Repr

/-- What a fault is, as a sentence. -/
def Fault.describe : Fault → String
  | .stackUnderflow symbol => s!"Stack underflow in '{symbol}'."
  | .indexOutOfRange index depth =>
    s!"Pick index {index.toInt} out of range for stack of depth {depth}."
  | .typeMismatch symbol expected found =>
    s!"'{symbol}' expected {expected.describe}, but found {found.describe}."
  | .unboundVariable name => s!"Variable '{name.toChar}' was never assigned."
  | .divisionByZero => "Division by zero."
  | .overflow symbol => s!"Integer overflow while computing '{symbol}'."
  | .invalidCharacter code => s!"{code.toInt} is not a valid character code."
  | .recursionLimit limit => s!"Quotations nested deeper than {limit} levels."
  | .io cause => s!"I/O failed: {cause.message}."

/-- A fault and the line of the instruction that raised it. -/
abbrev RuntimeError := Located Fault

def RuntimeError.message (e : RuntimeError) : String := e.report Fault.describe

end FalseLang
