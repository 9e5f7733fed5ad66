/-
  Located values: a value together with the source line it belongs to.

  Tokens, the defects that make a source unreadable and the faults that stop a
  run all carry a line. The line is kept beside the value and not inside it, so
  that "the same up to lines" is equality of the values.
-/

namespace FalseLang

/-- A value and the source line it belongs to. Lines count from one. -/
structure Located (α : Type) where
  line : Nat
  val : α
  deriving DecidableEq, Repr

/-- The text of an error: the line it is reported on, then what went wrong. -/
def Located.report {α : Type} (describe : α → String) (x : Located α) : String :=
  "Error on line " ++ toString x.line ++ ": " ++ describe x.val

end FalseLang
