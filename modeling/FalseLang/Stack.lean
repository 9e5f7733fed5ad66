import FalseLang.Value

/-
  Stacks: the values a program works on, the top first.
-/

namespace FalseLang

/-- A stack of values, the top first. -/
abbrev Stack := List Value

namespace Stack

def pop (symbol : Char) : Stack → Except Fault (Value × Stack)
  | [] => .error (.stackUnderflow symbol)
  | v :: rest => .ok (v, rest)

def peek (symbol : Char) : Stack → Except Fault Value
  | [] => .error (.stackUnderflow symbol)
  | v :: _ => .ok v

/-- The value at a distance from the top. -/
def fromTop? (s : Stack) (i : Nat) : Option Value := s[i]?

/-- The value that an index of the program picks. -/
def pick (s : Stack) (index : Int64) : Except Fault Value :=
  match if 0 ≤ index.toInt then s.fromTop? index.toNatClampNeg else none with
  | some v => .ok v
  | none => .error (.indexOutOfRange index s.length)

/-- A stack from the list of its values, the bottom first. -/
def ofBottomUp (values : List Value) : Stack := values.reverse

/-- The values of a stack, the bottom first. -/
def bottomUp (s : Stack) : List Value := s.reverse

/-- A stack as it is listed, the bottom first. -/
def display (s : Stack) : String :=
  "[" ++ String.intercalate ", " (s.bottomUp.map Value.display) ++ "]"

def same : Stack → Stack → Bool
  | [], [] => true
  | v :: s, w :: t => v.same w && same s t
  | _, _ => false

/-- Picking is looking up the distance that the index stands for. -/
theorem pick_eq (s : Stack) (index : Int64) :
    s.pick index = (Integer.pickIndex index s.length).bind fun i =>
      (s.fromTop? i).elim (.error (.indexOutOfRange index s.length)) .ok := by
  have value : index.toNatClampNeg = index.toInt.toNat := rfl
  unfold pick Integer.pickIndex fromTop?
  by_cases low : 0 ≤ index.toInt
  · by_cases high : index.toInt < s.length
    · have bound : index.toNatClampNeg < s.length := by omega
      simp [low, high, Except.bind, List.getElem?_eq_getElem bound]
    · have beyond : s.length ≤ index.toNatClampNeg := by omega
      simp [low, high, Except.bind, List.getElem?_eq_none beyond]
  · simp [low, Except.bind]

theorem same_iff {s t : Stack} : s.same t = true ↔ s = t := by
  induction s generalizing t with
  | nil => cases t <;> simp [same]
  | cons v s ih => cases t <;> simp [same, Value.same_iff, ih]

end Stack

end FalseLang
