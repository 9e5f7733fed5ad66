/-
  Primitives: the operations that work on the stack and the two devices and
  never run code. Each is written as one character.

  The characters are listed twice: `symbol` says how a primitive is written, and
  `opcodes` which primitive a character is read as. `opcodes_eq` says that the two
  agree, and `ofChar?_eq_some_iff` what this means for reading.
-/

namespace FalseLang

/-- The operations on the stack and the devices. -/
inductive Primitive where
  /-- Push a second copy of the top value. -/
  | duplicate
  | drop
  | swap
  /-- Bring the third value to the top. -/
  | rotate
  /-- Replace an index by a copy of the value at that distance from the top. -/
  | pick
  | add
  | subtract
  | multiply
  /-- Divide, rounding down. -/
  | divide
  | negate
  | bitAnd
  | bitOr
  /-- True on zero, false on everything else. -/
  | not
  | greater
  | equal
  /-- Read one character and push its code. -/
  | readChar
  /-- Write the character with the code on top. -/
  | writeChar
  /-- Write the integer on top in decimal. -/
  | writeDecimal
  /-- Flush both devices. -/
  | flush
  deriving DecidableEq, Repr

namespace Primitive

def all : List Primitive :=
  [.duplicate, .drop, .swap, .rotate, .pick, .add, .subtract, .multiply, .divide, .negate,
   .bitAnd, .bitOr, .not, .greater, .equal, .readChar, .writeChar, .writeDecimal, .flush]

/-- The character a primitive is written as. -/
def symbol : Primitive → Char
  | .duplicate => '$'
  | .drop => '%'
  | .swap => '\\'
  | .rotate => '@'
  | .pick => 'ø'
  | .add => '+'
  | .subtract => '-'
  | .multiply => '*'
  | .divide => '/'
  | .negate => '_'
  | .bitAnd => '&'
  | .bitOr => '|'
  | .not => '~'
  | .greater => '>'
  | .equal => '='
  | .readChar => '^'
  | .writeChar => ','
  | .writeDecimal => '.'
  | .flush => 'ß'

/-- The characters that are read as primitives. -/
def opcodes : List (Char × Primitive) :=
  [('$', .duplicate),
   ('%', .drop),
   ('\\', .swap),
   ('@', .rotate),
   ('ø', .pick),
   ('+', .add),
   ('-', .subtract),
   ('*', .multiply),
   ('/', .divide),
   ('_', .negate),
   ('&', .bitAnd),
   ('|', .bitOr),
   ('~', .not),
   ('>', .greater),
   ('=', .equal),
   ('^', .readChar),
   (',', .writeChar),
   ('.', .writeDecimal),
   ('ß', .flush)]

/-- The primitive that a character stands for. -/
def ofChar? (c : Char) : Option Primitive := opcodes.lookup c

theorem mem_all (p : Primitive) : p ∈ all := by
  cases p <;> decide

/-- Characters are read as the primitives that are written as them. -/
theorem opcodes_eq : opcodes = all.map fun p => (p.symbol, p) := rfl

theorem mem_opcodes_iff {c : Char} {p : Primitive} : (c, p) ∈ opcodes ↔ p.symbol = c := by
  rw [opcodes_eq, List.mem_map]
  constructor
  · rintro ⟨q, -, same⟩
    cases same
    rfl
  · rintro rfl
    exact ⟨p, mem_all p, rfl⟩

/-- No two primitives are written alike: each character is read back as its own. -/
@[simp]
theorem ofChar?_symbol (p : Primitive) : ofChar? p.symbol = some p := by
  cases p <;> decide

/-- A character stands for a primitive exactly if it is the primitive's symbol. -/
theorem ofChar?_eq_some_iff {c : Char} {p : Primitive} : ofChar? c = some p ↔ p.symbol = c := by
  constructor
  · intro h
    obtain ⟨before, after, split, -⟩ := List.lookup_eq_some_iff.1 h
    apply mem_opcodes_iff.1
    rw [split]
    exact List.mem_append_right before List.mem_cons_self
  · rintro rfl
    exact ofChar?_symbol p

end Primitive

end FalseLang
