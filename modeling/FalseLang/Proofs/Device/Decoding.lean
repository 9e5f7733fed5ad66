import FalseLang.Device.Input

/-
  Decoding: the characters that bytes in UTF-8 stand for.

  `Utf8.WellFormed` is the table of the byte sequences that encode a character, by
  the ranges their bytes are in. It has no overlong form, no half of a surrogate pair
  and nothing past the last code point, and it has the encoding of every character
  (`Utf8.wellFormed_iff`). The first byte alone says less: it gives a width for some
  bytes that begin no character, so what it announces is checked again when all bytes
  are there.

  `Utf8.next` is the reading of a character from bytes that all lie ready. It takes
  the encoding of a character off the front and nothing else
  (`Utf8.next_eq_char_iff`), and where there is none it fails after as many bytes as
  the first one announces (`Utf8.next_of_malformed`).
-/

namespace FalseLang.Utf8

/-- A byte that stands behind the first one of a character. -/
def Continues (b : UInt8) : Prop := 0x80 ≤ b.toNat ∧ b.toNat ≤ 0xBF

/-- The bytes of a character. The second byte is in a smaller range where the first one alone
would allow a form that is too long, half of a surrogate pair or a value past the last code
point. -/
inductive WellFormed : List UInt8 → Prop where
  | one {a : UInt8} (lead : a.toNat ≤ 0x7F) : WellFormed [a]
  | two {a b : UInt8} (lead : 0xC2 ≤ a.toNat ∧ a.toNat ≤ 0xDF) (second : Continues b) :
    WellFormed [a, b]
  | three {a b c : UInt8} (lead : 0xE0 ≤ a.toNat ∧ a.toNat ≤ 0xEF) (second : Continues b)
    (shortest : a.toNat = 0xE0 → 0xA0 ≤ b.toNat) (unpaired : a.toNat = 0xED → b.toNat ≤ 0x9F)
    (third : Continues c) : WellFormed [a, b, c]
  | four {a b c d : UInt8} (lead : 0xF0 ≤ a.toNat ∧ a.toNat ≤ 0xF4) (second : Continues b)
    (shortest : a.toNat = 0xF0 → 0x90 ≤ b.toNat) (last : a.toNat = 0xF4 → b.toNat ≤ 0x8F)
    (third : Continues c) (fourth : Continues d) : WellFormed [a, b, c, d]

/-! ## The table has the encodings of characters -/

theorem wellFormed_encodeChar (c : Char) : WellFormed (String.utf8EncodeChar c) := by
  have valid := c.valid
  simp only [UInt32.isValidChar, Nat.isValidChar] at valid
  unfold String.utf8EncodeChar
  simp only
  split
  · apply WellFormed.one
    simp only [UInt8.toNat_ofNat']
    omega
  split
  · apply WellFormed.two
    · simp only [UInt8.toNat_ofNat']
      omega
    · simp only [Continues, UInt8.toNat_ofNat']
      omega
  split
  · apply WellFormed.three <;> simp only [Continues, UInt8.toNat_ofNat'] <;> omega
  · apply WellFormed.four <;> simp only [Continues, UInt8.toNat_ofNat'] <;> omega

/-- The character of a code point has this code point. -/
theorem toNat_val_ofNat {n : Nat} (valid : n.isValidChar) : (Char.ofNat n).val.toNat = n := by
  unfold Char.ofNat
  rw [dif_pos valid]
  rfl

theorem ofNat_eq_of_toNat {n : Nat} {b : UInt8} (h : n = b.toNat) : UInt8.ofNat n = b := by
  rw [h, UInt8.ofNat_toNat]

/-- Well-formed bytes carry a code point that is encoded as these bytes. -/
theorem encodeChar_codePoint {bytes : List UInt8} (h : WellFormed bytes) :
    String.utf8EncodeChar (Char.ofNat (codePoint bytes)) = bytes := by
  have valid : (codePoint bytes).isValidChar := by
    cases h <;> simp only [codePoint, Continues, Nat.isValidChar] at * <;> omega
  generalize carried : codePoint bytes = n at valid ⊢
  unfold String.utf8EncodeChar
  simp only [toNat_val_ofNat valid]
  cases h with
  | one lead =>
    simp only [codePoint] at carried
    rw [if_pos (by omega), ofNat_eq_of_toNat carried.symm]
  | two lead second =>
    simp only [codePoint, Continues] at carried second
    rw [if_neg (by omega), if_pos (by omega)]
    simp only [List.cons.injEq, and_true]
    constructor <;> apply ofNat_eq_of_toNat <;> omega
  | three lead second shortest unpaired third =>
    simp only [codePoint, Continues] at carried second third
    rw [if_neg (by omega), if_neg (by omega), if_pos (by omega)]
    simp only [List.cons.injEq, and_true]
    refine ⟨?_, ?_, ?_⟩ <;> apply ofNat_eq_of_toNat <;> omega
  | four lead second shortest last third fourth =>
    simp only [codePoint, Continues] at carried second third fourth
    rw [if_neg (by omega), if_neg (by omega), if_neg (by omega)]
    simp only [List.cons.injEq, and_true]
    refine ⟨?_, ?_, ?_, ?_⟩ <;> apply ofNat_eq_of_toNat <;> omega

/-- The table has the encodings of all characters and nothing else. -/
theorem wellFormed_iff {bytes : List UInt8} :
    WellFormed bytes ↔ ∃ c, String.utf8EncodeChar c = bytes := by
  constructor
  · intro h
    exact ⟨_, encodeChar_codePoint h⟩
  · rintro ⟨c, rfl⟩
    exact wellFormed_encodeChar c

/-! ## Widths -/

/-- The bytes that announce no character: those that continue one, and the last eight. -/
theorem width?_eq_none_iff {first : UInt8} :
    width? first = none ↔ 0x80 ≤ first ∧ first ≤ 0xBF ∨ 0xF8 ≤ first := by
  simp only [width?, UInt8.le_iff_toNat_le, UInt8.reduceToNat]
  repeat' split
  all_goals simp
  all_goals omega

/-- The first byte of a character says how many bytes it has. -/
theorem width?_eq_some_iff {first : UInt8} {width : Nat} :
    width? first = some width ↔
      width = 1 ∧ first ≤ 0x7F ∨
      width = 2 ∧ 0xC0 ≤ first ∧ first ≤ 0xDF ∨
      width = 3 ∧ 0xE0 ≤ first ∧ first ≤ 0xEF ∨
      width = 4 ∧ 0xF0 ≤ first ∧ first ≤ 0xF7 := by
  simp only [width?, UInt8.le_iff_toNat_le, UInt8.reduceToNat]
  repeat' split
  all_goals simp only [Option.some.injEq, reduceCtorEq, false_iff]
  all_goals omega

theorem width_pos {first : UInt8} {width : Nat} (h : width? first = some width) : 0 < width := by
  have widths := width?_eq_some_iff.1 h
  omega

/-- The first byte of well-formed bytes announces as many as there are. -/
theorem exists_width_of_wellFormed {bytes : List UInt8} (h : WellFormed bytes) :
    ∃ first rest, bytes = first :: rest ∧ width? first = some (rest.length + 1) := by
  cases h with
  | @one a lead => exact ⟨a, [], rfl, by simp only [width?]; rw [if_pos (by omega)]; rfl⟩
  | @two a b lead second =>
    refine ⟨a, [b], rfl, ?_⟩
    simp only [width?]
    rw [if_neg (by omega), if_neg (by omega), if_pos (by omega)]
    rfl
  | @three a b c lead =>
    refine ⟨a, [b, c], rfl, ?_⟩
    simp only [width?]
    rw [if_neg (by omega), if_neg (by omega), if_neg (by omega), if_pos (by omega)]
    rfl
  | @four a b c d lead =>
    refine ⟨a, [b, c, d], rfl, ?_⟩
    simp only [width?]
    rw [if_neg (by omega), if_neg (by omega), if_neg (by omega), if_neg (by omega),
      if_pos (by omega)]
    rfl

/-! ## Reading a character from bytes that lie ready -/

/-- The next character of some bytes: what comes out, and the bytes that are left. -/
def next : List UInt8 → Except DeviceError (Option Char) × List UInt8
  | [] => (.ok none, [])
  | first :: rest =>
    match width? first with
    | none => (.error .invalidText, rest)
    | some width =>
      if rest.length < width - 1 then (.error .endInsideCharacter, [])
      else
        match decodeChar? (first :: rest.take (width - 1)) with
        | none => (.error .invalidText, rest.drop (width - 1))
        | some c => (.ok (some c), rest.drop (width - 1))

theorem next_eq_end_iff {bs left : List UInt8} :
    next bs = (.ok none, left) ↔ bs = [] ∧ left = [] := by
  cases bs with
  | nil => simp [next, eq_comm]
  | cons first rest =>
    simp only [next]
    repeat' split
    all_goals simp

/-- A character is read exactly where its encoding stands, and nothing more is taken. -/
theorem next_eq_char_iff {bs left : List UInt8} {c : Char} :
    next bs = (.ok (some c), left) ↔ bs = String.utf8EncodeChar c ++ left := by
  constructor
  · intro h
    unfold next at h
    repeat' split at h
    all_goals cases h
    rename_i decoded
    rw [decodeChar?_eq_some_iff.1 decoded]
    simp
  · rintro rfl
    obtain ⟨first, rest, cut, width⟩ := exists_width_of_wellFormed (wellFormed_encodeChar c)
    have decoded : decodeChar? (first :: rest) = some c := decodeChar?_eq_some_iff.2 cut
    rw [cut, List.cons_append]
    unfold next
    simp [width, decoded]

/-- A byte that announces no character is passed over. -/
theorem next_of_stray {first : UInt8} (h : width? first = none) (rest : List UInt8) :
    next (first :: rest) = (.error .invalidText, rest) := by
  simp [next, h]

/-- Where there are fewer bytes than the first one announces, all of them are lost. -/
theorem next_of_short {first : UInt8} {rest : List UInt8} {width : Nat}
    (h : width? first = some width) (short : (first :: rest).length < width) :
    next (first :: rest) = (.error .endInsideCharacter, []) := by
  have few : rest.length < width - 1 := by
    rw [List.length_cons] at short
    omega
  simp [next, h, few]

/-- As many bytes as the first one announces are taken, also if they encode nothing. -/
theorem next_of_malformed {first : UInt8} {rest : List UInt8} {width : Nat}
    (h : width? first = some width) (enough : width ≤ (first :: rest).length)
    (other : ∀ c left, first :: rest ≠ String.utf8EncodeChar c ++ left) :
    next (first :: rest) = (.error .invalidText, (first :: rest).drop width) := by
  have positive := width_pos h
  have all : ¬ rest.length < width - 1 := by
    rw [List.length_cons] at enough
    omega
  have undecoded : decodeChar? (first :: rest.take (width - 1)) = none := by
    cases decoded : decodeChar? (first :: rest.take (width - 1)) with
    | none => rfl
    | some c =>
      refine absurd ?_ (other c (rest.drop (width - 1)))
      rw [decodeChar?_eq_some_iff.1 decoded, List.cons_append, List.take_append_drop]
  obtain ⟨more, rfl⟩ : ∃ more, width = more + 1 := ⟨width - 1, by omega⟩
  simp only [Nat.add_sub_cancel] at undecoded all
  simp [next, h, all, undecoded]

end FalseLang.Utf8
