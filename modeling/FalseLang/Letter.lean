/-
  Letters: the names `a` to `z` of the 26 variables.

  A letter is its position in the alphabet, so that a table of 26 cells holds
  one cell for each variable. `ofChar?_eq_some_iff` says that reading and
  writing a letter are inverse to each other.
-/

namespace FalseLang

/-- The name of a variable, as its position in the alphabet. -/
structure Letter where
  index : Fin 26
  deriving DecidableEq, Repr

namespace Letter

/-- The character that names the variable. -/
def toChar (l : Letter) : Char := Char.ofNat (97 + l.index.val)

/-- The letter that a character names; only `a` to `z` name one. -/
def ofChar? (c : Char) : Option Letter :=
  if h : 97 ≤ c.toNat ∧ c.toNat ≤ 122 then some ⟨⟨c.toNat - 97, by omega⟩⟩ else none

/-- Reading the character of a letter gives the letter back. -/
@[simp]
theorem ofChar?_toChar (l : Letter) : ofChar? l.toChar = some l := by
  obtain ⟨i⟩ := l
  revert i
  decide

/-- A character names a letter exactly if it is the letter's own. -/
theorem ofChar?_eq_some_iff {c : Char} {l : Letter} : ofChar? c = some l ↔ l.toChar = c := by
  constructor
  · intro h
    unfold ofChar? at h
    split at h
    · cases h
      rename_i bounds
      have same : 97 + (c.toNat - 97) = c.toNat := by omega
      simp [toChar, same, Char.ofNat_toNat]
    · cases h
  · rintro rfl
    exact ofChar?_toChar l

end Letter

end FalseLang
