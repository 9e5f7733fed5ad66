import FalseLang.Value

/-
  Environments: the values of the 26 variables.

  A variable holds nothing until it is first written. The equations `get_empty`,
  `get_store_same` and `get_store_ne` say what each variable holds.
-/

namespace FalseLang

structure Environment where
  slots : Vector (Option Value) 26
  deriving Repr

namespace Environment

def empty : Environment := ⟨Vector.replicate 26 none⟩

/-- What a variable holds, if it was ever written. -/
def get (e : Environment) (name : Letter) : Option Value := e.slots[name.index]

def store (e : Environment) (name : Letter) (v : Value) : Environment :=
  ⟨e.slots.set name.index (some v)⟩

/-- Read a variable, which must have been written before. -/
def load (e : Environment) (name : Letter) : Except Fault Value :=
  match e.get name with
  | some v => .ok v
  | none => .error (.unboundVariable name)

/-- The variables that were written and what they hold, in alphabetical order. -/
def bindings (e : Environment) : List (Letter × Value) :=
  (List.finRange 26).filterMap fun i => (e.get ⟨i⟩).map fun v => (⟨i⟩, v)

@[simp]
theorem get_empty (name : Letter) : empty.get name = none := by
  simp [empty, get]

@[simp]
theorem get_store_same (e : Environment) (name : Letter) (v : Value) :
    (e.store name v).get name = some v := by
  simp [store, get]

/-- Writing a variable leaves the others as they are. -/
theorem get_store_ne {name other : Letter} (h : name ≠ other) (e : Environment) (v : Value) :
    (e.store name v).get other = e.get other := by
  have apart : name.index.val ≠ other.index.val := by
    intro eq
    apply h
    cases name
    cases other
    simpa [Fin.ext_iff] using eq
  simp [store, get, apart]

end Environment

end FalseLang
