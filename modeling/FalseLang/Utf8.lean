/-
  UTF-8: characters as bytes and back.

  The first byte of a character says how many bytes it has. Decoding computes
  the code point that the bytes carry and accepts it if its own encoding is
  those bytes; so overlong forms, surrogates and values past the last code point
  are refused without a rule for each. `decodeChar?_eq_some_iff` is the law.
-/

namespace FalseLang.Utf8

def encode (text : List Char) : List UInt8 := text.flatMap String.utf8EncodeChar

/-- The number of bytes of a character, by its first byte. -/
def width? (first : UInt8) : Option Nat :=
  let n := first.toNat
  if n < 0x80 then some 1
  else if n < 0xC0 then none
  else if n < 0xE0 then some 2
  else if n < 0xF0 then some 3
  else if n < 0xF8 then some 4
  else none

/-- The bits that the bytes of one character carry, as a number. -/
def codePoint : List UInt8 → Nat
  | [a] => a.toNat
  | [a, b] => a.toNat % 32 * 64 + b.toNat % 64
  | [a, b, c] => (a.toNat % 16 * 64 + b.toNat % 64) * 64 + c.toNat % 64
  | [a, b, c, d] => ((a.toNat % 8 * 64 + b.toNat % 64) * 64 + c.toNat % 64) * 64 + d.toNat % 64
  | _ => 0

/-- The character that is encoded as exactly these bytes. -/
def decodeChar? (bytes : List UInt8) : Option Char :=
  if (codePoint bytes).isValidChar ∧ String.utf8EncodeChar (Char.ofNat (codePoint bytes)) = bytes
  then some (Char.ofNat (codePoint bytes))
  else none

/-- Decodes bytes behind characters already decoded, which are given in reverse. -/
def decodeOnto (decoded : List Char) : List UInt8 → Option (List Char)
  | [] => some decoded.reverse
  | first :: rest =>
    match width? first with
    | none => none
    | some w =>
      match decodeChar? (first :: rest.take (w - 1)) with
      | none => none
      | some c => decodeOnto (c :: decoded) (rest.drop (w - 1))
termination_by bytes => bytes.length

/-- The text that bytes encode, if they encode one. -/
def decode? (bytes : List UInt8) : Option (List Char) := decodeOnto [] bytes

/-! ## Decoding undoes encoding -/

/-- The encoding of a character carries its code point. -/
theorem codePoint_encodeChar (c : Char) : codePoint (String.utf8EncodeChar c) = c.toNat := by
  have valid : c.val.toNat < 0x110000 := by
    have := c.valid
    simp only [UInt32.isValidChar, Nat.isValidChar] at this
    omega
  unfold String.utf8EncodeChar Char.toNat
  simp only
  split
  · simp only [codePoint, UInt8.toNat_ofNat']
    omega
  split
  · simp only [codePoint, UInt8.toNat_ofNat']
    omega
  split
  · simp only [codePoint, UInt8.toNat_ofNat']
    omega
  · simp only [codePoint, UInt8.toNat_ofNat']
    omega

/-- Bytes decode to a character exactly if they are its encoding. -/
theorem decodeChar?_eq_some_iff {bytes : List UInt8} {c : Char} :
    decodeChar? bytes = some c ↔ String.utf8EncodeChar c = bytes := by
  unfold decodeChar?
  constructor
  · intro h
    split at h
    · rename_i accepted
      injection h with h
      rw [← h]
      exact accepted.2
    · cases h
  · rintro rfl
    have valid : c.toNat.isValidChar := c.valid
    rw [codePoint_encodeChar, Char.ofNat_toNat, if_pos ⟨valid, rfl⟩]

end FalseLang.Utf8
