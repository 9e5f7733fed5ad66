import FalseLang.Proofs.Device.Decoding
import FalseLang.Proofs.Machine.Progress

/-
  Deliveries: how the bytes arrive makes no difference to what is read.

  `HandOut ds bs` says that the deliveries `ds` hand out the bytes `bs` and nothing
  else: in pieces of any size, with any number of interruptions between them. The
  next byte is then the first of `bs`, whatever piece it is in (`byte_of_handOut`),
  and the bytes behind it are taken one by one in the same way, although a piece may
  end and the source be interrupted in the middle of a character (`bytes_of_handOut`).

  `Utf8.next` is the reading of a character from bytes that all lie ready, with
  neither pieces nor interruptions. Reading from a device is that
  (`Input.reads_iff`), so what is read depends on `bs` alone; `readChars_of_pieces`
  states it for any number of readings.
-/

namespace FalseLang

/-- Some deliveries hand out these bytes, in pieces that are not empty, and then the input
ends. -/
inductive HandOut : List Delivery → List UInt8 → Prop where
  | nothing : HandOut [] []
  /-- The end of the input is a delivery of its own. -/
  | ended : HandOut [.bytes []] []
  | interrupted {ds : List Delivery} {bs : List UInt8} (later : HandOut ds bs) :
    HandOut (.interrupted :: ds) bs
  | piece {ds : List Delivery} {bs : List UInt8} (b : UInt8) (others : List UInt8)
    (later : HandOut ds bs) : HandOut (.bytes (b :: others) :: ds) (b :: others ++ bs)

namespace HandOut

variable {ds : List Delivery} {bs : List UInt8}

theorem unique {cs : List UInt8} (h : HandOut ds bs) (h' : HandOut ds cs) : bs = cs := by
  induction h generalizing cs with
  | nothing => cases h'; rfl
  | ended => cases h'; rfl
  | interrupted _ ih => cases h' with | interrupted later => exact ih later
  | piece b others _ ih => cases h' with | piece _ _ later => rw [ih later]

/-- What is left of a piece is a piece, or nothing. -/
theorem putBack (h : HandOut ds bs) (left : List UInt8) :
    HandOut (Reading.putBack left ds) (left ++ bs) := by
  cases left with
  | nil => exact h
  | cons b others => exact .piece b others h

/-- Bytes that arrive in one piece. -/
theorem onePiece (bs : List UInt8) : HandOut [.bytes bs] bs := by
  cases bs with
  | nil => exact .ended
  | cons b others => simpa using HandOut.piece b others .nothing

end HandOut

/-- How a call on a device ended, without the device it has left. -/
def resultValue {ε σ α : Type} : EStateM.Result ε σ α → Except ε α
  | .ok a _ => .ok a
  | .error e _ => .error e

/-! ## Bytes -/

namespace Reading

section
variable {α β : Type} {x : Reading α} {ds left : List Delivery}

theorem bind_of_ok {a : α} (h : x ds = .ok a left) (f : α → Reading β) :
    (x >>= f) ds = f a left := by
  show EStateM.bind x f ds = _
  rw [EStateM.bind, h]

theorem bind_of_error {e : DeviceError} (h : x ds = .error e left) (f : α → Reading β) :
    (x >>= f) ds = .error e left := by
  show EStateM.bind x f ds = _
  rw [EStateM.bind, h]

end

variable {ds : List Delivery} {bs : List UInt8}

/-- The next byte is the first one, in whatever piece it arrives. -/
theorem byte_of_handOut (h : HandOut ds bs) :
    ∃ left, byte ds = .ok bs.head? left ∧ HandOut left bs.tail := by
  induction h with
  | nothing => exact ⟨[], rfl, .nothing⟩
  | ended => exact ⟨[], rfl, .nothing⟩
  | interrupted _ ih => exact ih
  | piece b others later ih => exact ⟨_, rfl, later.putBack others⟩

/-- The bytes behind are the next ones, or the input ends before there are enough. -/
theorem bytes_of_handOut (n : Nat) (h : HandOut ds bs) :
    (n ≤ bs.length → ∃ left, bytes n ds = .ok (bs.take n) left ∧ HandOut left (bs.drop n)) ∧
    (bs.length < n → ∃ left, bytes n ds = .error .endInsideCharacter left ∧ HandOut left []) := by
  induction n generalizing ds bs with
  | zero => exact ⟨fun _ => ⟨ds, rfl, h⟩, fun few => absurd few (Nat.not_lt_zero _)⟩
  | succ n ih =>
    obtain ⟨left, read, rest⟩ := byte_of_handOut h
    cases bs with
    | nil =>
      refine ⟨fun enough => absurd enough (by simp), fun _ => ⟨left, ?_, rest⟩⟩
      unfold bytes
      rw [bind_of_ok read]
      rfl
    | cons b bs =>
      obtain ⟨enough, few⟩ := ih rest
      constructor
      · intro long
        obtain ⟨end_, all, behind⟩ := enough (by simpa using long)
        refine ⟨end_, ?_, behind⟩
        unfold bytes
        rw [bind_of_ok read]
        exact bind_of_ok all _
      · intro short
        obtain ⟨end_, failed, behind⟩ := few (by simpa using short)
        refine ⟨end_, ?_, behind⟩
        unfold bytes
        rw [bind_of_ok read]
        exact bind_of_error failed _

end Reading

/-! ## Characters -/

theorem Reading.char_of_handOut {ds : List Delivery} {bs : List UInt8} (h : HandOut ds bs) :
    resultValue (char ds) = (Utf8.next bs).1 ∧
      HandOut (resultState (char ds)) (Utf8.next bs).2 := by
  obtain ⟨left, read, behind⟩ := byte_of_handOut h
  unfold char
  rw [bind_of_ok read]
  cases bs with
  | nil => exact ⟨rfl, behind⟩
  | cons first rest =>
    simp only [List.head?_cons, List.tail_cons, Utf8.next] at behind ⊢
    cases Utf8.width? first with
    | none => exact ⟨rfl, behind⟩
    | some width =>
      obtain ⟨enough, few⟩ := bytes_of_handOut (width - 1) behind
      by_cases short : rest.length < width - 1
      · obtain ⟨end_, failed, after⟩ := few short
        simp only [bind_of_error failed, if_pos short]
        exact ⟨rfl, after⟩
      · obtain ⟨end_, all, after⟩ := enough (Nat.le_of_not_lt short)
        simp only [bind_of_ok all, if_neg short]
        cases Utf8.decodeChar? (first :: rest.take (width - 1)) with
        | none => exact ⟨rfl, after⟩
        | some c => exact ⟨rfl, after⟩

namespace Input

/-- An input that hands out these bytes, in whatever pieces. -/
def HandsOut (i : Input) (bs : List UInt8) : Prop := HandOut i.deliveries bs

/-- The next reading of a character ends like this and leaves these bytes to be read. -/
def Reads (i : Input) (result : Except DeviceError (Option Char)) (left : List UInt8) : Prop :=
  resultValue i.readChar = result ∧ (resultState i.readChar).HandsOut left

/-- The results of some readings of a character, one after the other. -/
def readChars : Nat → Input → List (Except DeviceError (Option Char))
  | 0, _ => []
  | n + 1, i => resultValue i.readChar :: readChars n (resultState i.readChar)

theorem handsOut_ofBytes (bs : List UInt8) : (Input.ofBytes bs).HandsOut bs := .onePiece bs

theorem reads_next {i : Input} {bs : List UInt8} (h : i.HandsOut bs) :
    i.Reads (Utf8.next bs).1 (Utf8.next bs).2 := by
  have read := Reading.char_of_handOut h
  obtain ⟨deliveries, flushes, failsFrom⟩ := i
  unfold Reads readChar
  revert read
  dsimp only
  cases Reading.char deliveries <;> exact id

/-- What is read, and what is left, depends on the bytes alone. -/
theorem reads_iff {i : Input} {bs left : List UInt8} {result : Except DeviceError (Option Char)}
    (h : i.HandsOut bs) : i.Reads result left ↔ Utf8.next bs = (result, left) := by
  obtain ⟨value, behind⟩ := reads_next h
  constructor
  · rintro ⟨same, left⟩
    exact Prod.ext (value.symm.trans same) (HandOut.unique behind left)
  · intro same
    rw [same] at value behind
    exact ⟨value, behind⟩

theorem readChars_congr {i j : Input} {bs : List UInt8} (h : i.HandsOut bs) (h' : j.HandsOut bs)
    (n : Nat) : i.readChars n = j.readChars n := by
  induction n generalizing i j bs with
  | zero => rfl
  | succ n ih =>
    obtain ⟨value, behind⟩ := reads_next h
    obtain ⟨value', behind'⟩ := reads_next h'
    rw [readChars, readChars, value, value', ih behind behind']

end Input

/-- **Reading a character decodes exactly UTF-8.** It finds the end where nothing is left and a
character where the encoding of that character stands, of which it takes every byte and none
behind; so what it accepts is the table of well-formed bytes. In all other cases it fails: a
byte that announces no character is passed over, a width that the first byte announces and that
is not there uses up all bytes, and one that is there is used up although it encodes nothing. -/
theorem readChar_decodes {i : Input} {bs : List UInt8} (delivered : i.HandsOut bs) :
    (∀ left, i.Reads (.ok none) left ↔ bs = [] ∧ left = []) ∧
    (∀ c left, i.Reads (.ok (some c)) left ↔ bs = String.utf8EncodeChar c ++ left) ∧
    ((∃ c left, i.Reads (.ok (some c)) left) ↔
      ∃ bytes left, bs = bytes ++ left ∧ Utf8.WellFormed bytes) ∧
    (bs ≠ [] → (∀ c left, bs ≠ String.utf8EncodeChar c ++ left) →
      ∃ first rest, bs = first :: rest ∧
        ((0x80 ≤ first ∧ first ≤ 0xBF ∨ 0xF8 ≤ first) ∧ i.Reads (.error .invalidText) rest ∨
          ∃ width,
            (width = 1 ∧ first ≤ 0x7F ∨ width = 2 ∧ 0xC0 ≤ first ∧ first ≤ 0xDF ∨
              width = 3 ∧ 0xE0 ≤ first ∧ first ≤ 0xEF ∨
              width = 4 ∧ 0xF0 ≤ first ∧ first ≤ 0xF7) ∧
            (bs.length < width ∧ i.Reads (.error .endInsideCharacter) [] ∨
              width ≤ bs.length ∧ i.Reads (.error .invalidText) (bs.drop width)))) := by
  simp only [Input.reads_iff delivered]
  refine ⟨fun left => Utf8.next_eq_end_iff, fun c left => Utf8.next_eq_char_iff, ?_, ?_⟩
  · simp only [Utf8.next_eq_char_iff, Utf8.wellFormed_iff]
    constructor
    · rintro ⟨c, left, cut⟩
      exact ⟨_, left, cut, c, rfl⟩
    · rintro ⟨_, left, cut, c, rfl⟩
      exact ⟨c, left, cut⟩
  · intro some_byte other
    obtain ⟨first, rest, rfl⟩ := List.exists_cons_of_ne_nil some_byte
    refine ⟨first, rest, rfl, ?_⟩
    cases width : Utf8.width? first with
    | none => exact .inl ⟨Utf8.width?_eq_none_iff.1 width, Utf8.next_of_stray width rest⟩
    | some w =>
      refine .inr ⟨w, Utf8.width?_eq_some_iff.1 width, ?_⟩
      by_cases short : (first :: rest).length < w
      · exact .inl ⟨short, Utf8.next_of_short width short⟩
      · have enough := Nat.le_of_not_lt short
        exact .inr ⟨enough, Utf8.next_of_malformed width enough other⟩

/-- The euro sign, which an interruption cuts in two; and a slash in a form that is too long,
which is no character although its first byte announces one of two bytes. -/
theorem readChar_decodes_euro :
    (Input.HandsOut { deliveries := [.bytes [0xE2], .interrupted, .bytes [0x82, 0xAC, 0x61]] }
        [0xE2, 0x82, 0xAC, 0x61] ∧
      Input.Reads { deliveries := [.bytes [0xE2], .interrupted, .bytes [0x82, 0xAC, 0x61]] }
        (.ok (some '€')) [0x61]) ∧
    ((Input.ofBytes [0xC0, 0xAF]).HandsOut [0xC0, 0xAF] ∧
      ¬ ∃ c left, (Input.ofBytes [0xC0, 0xAF]).Reads (.ok (some c)) left) := by
  constructor
  · have delivered : Input.HandsOut
        { deliveries := [.bytes [0xE2], .interrupted, .bytes [0x82, 0xAC, 0x61]] }
        [0xE2, 0x82, 0xAC, 0x61] :=
      .piece 0xE2 [] (.interrupted (.piece 0x82 [0xAC, 0x61] .nothing))
    exact ⟨delivered, ((readChar_decodes delivered).2.1 '€' [0x61]).2 (by decide)⟩
  · have delivered := Input.handsOut_ofBytes [0xC0, 0xAF]
    refine ⟨delivered, fun read => ?_⟩
    obtain ⟨bytes, left, cut, table⟩ := (readChar_decodes delivered).2.2.1.1 read
    cases table with
    | one lead =>
      cases cut
      exact absurd lead (by decide)
    | two lead =>
      cases cut
      exact absurd lead (by decide)
    | three | four => cases cut

/-! ## Pieces -/

/-- Interruptions before a byte, however many, are passed over. -/
theorem Reading.byte_of_interrupted (k : Nat) (b : UInt8) (others : List UInt8)
    (later : List Delivery) :
    byte (List.replicate k .interrupted ++ .bytes (b :: others) :: later) =
      .ok (some b) (putBack others later) := by
  induction k with
  | zero => rfl
  | succ k ih => exact ih

/-- No request leaves what it has found: something is used up. -/
theorem Reading.byte_uses (d : Delivery) (later : List Delivery) :
    resultState (byte (d :: later)) ≠ d :: later := by
  cases d with
  | interrupted =>
    intro same
    have left := (consumes_byte later).length_le
    change resultState (byte later) = _ at same
    rw [same] at left
    exact absurd left (by simp [unreadOf, Delivery.units])
  | failure text => exact (List.cons_ne_self _ _).symm
  | bytes bs =>
    cases bs with
    | nil => exact (List.cons_ne_self _ _).symm
    | cons b others =>
      cases others with
      | nil => exact (List.cons_ne_self _ _).symm
      | cons c others =>
        intro same
        change Delivery.bytes (c :: others) :: later = _ at same
        simp at same

/-- A character of one byte needs no request behind the one that has delivered it. -/
theorem Reading.char_of_oneByte {b : UInt8} (h : b < 0x80) (k : Nat) (others : List UInt8)
    (later : List Delivery) :
    char (List.replicate k .interrupted ++ .bytes (b :: others) :: later) =
      .ok (some (Char.ofNat b.toNat)) (putBack others later) := by
  rw [UInt8.lt_iff_toNat_lt] at h
  have width : Utf8.width? b = some 1 := if_pos h
  have decoded : Utf8.decodeChar? [b] = some (Char.ofNat b.toNat) :=
    Utf8.decodeChar?_eq_some_iff.2 (Utf8.encodeChar_codePoint (.one (Nat.le_of_lt_succ h)))
  unfold char
  rw [bind_of_ok (byte_of_interrupted k b others later)]
  simp only [width]
  have nothing : bytes (1 - 1) (putBack others later) = .ok [] (putBack others later) := rfl
  rw [bind_of_ok nothing, decoded]
  rfl

/-- **How the bytes arrive makes no difference.** Any number of readings of a character give the
same results, whatever pieces the bytes arrive in and wherever the source is interrupted, as if
all bytes had come at once. And a character of one byte is read as soon as this byte is there:
what the source has in store behind it, be it a failure, is still to come, although any further
request would have used some of it up. -/
theorem readChars_of_pieces {i : Input} {bs : List UInt8} (delivered : i.HandsOut bs) (n : Nat) :
    i.readChars n = (Input.ofBytes bs).readChars n ∧
    (∀ (k : Nat) (b : UInt8) (others : List UInt8) (later : List Delivery), b < 0x80 →
      Input.readChar { i with
          deliveries := List.replicate k .interrupted ++ .bytes (b :: others) :: later } =
        .ok (some (Char.ofNat b.toNat)) { i with deliveries := Reading.putBack others later }) ∧
    (∀ (d : Delivery) (later : List Delivery),
      resultState (Reading.byte (d :: later)) ≠ d :: later) := by
  refine ⟨Input.readChars_congr delivered (Input.handsOut_ofBytes bs) n, ?_, Reading.byte_uses⟩
  intro k b others later ascii
  unfold Input.readChar
  simp only [Reading.char_of_oneByte ascii]

/-- Bytes cut in the middle of three characters, of which one is malformed and one breaks off,
with interruptions before, between and behind the pieces; and a letter with a failure behind. -/
theorem readChars_of_pieces_malformed :
    (Input.HandsOut { deliveries := [.interrupted, .bytes [0xE2], .bytes [0x82, 0x41, 0xC3],
          .interrupted, .interrupted, .bytes [0xA9, 0x7A], .bytes [0xF0], .interrupted] }
        [0xE2, 0x82, 0x41, 0xC3, 0xA9, 0x7A, 0xF0] ∧
      Input.readChars 5 { deliveries := [.interrupted, .bytes [0xE2], .bytes [0x82, 0x41, 0xC3],
          .interrupted, .interrupted, .bytes [0xA9, 0x7A], .bytes [0xF0], .interrupted] } =
        [.error .invalidText, .ok (some 'é'), .ok (some 'z'), .error .endInsideCharacter,
          .ok none]) ∧
    Input.readChar { deliveries := [.interrupted, .bytes [0x7A], .failure "broken"] } =
      .ok (some 'z') { deliveries := [.failure "broken"] } := by
  have delivered : Input.HandsOut { deliveries := [.interrupted, .bytes [0xE2],
        .bytes [0x82, 0x41, 0xC3], .interrupted, .interrupted, .bytes [0xA9, 0x7A], .bytes [0xF0],
        .interrupted] } [0xE2, 0x82, 0x41, 0xC3, 0xA9, 0x7A, 0xF0] :=
    .interrupted (.piece 0xE2 [] (.piece 0x82 [0x41, 0xC3] (.interrupted (.interrupted
      (.piece 0xA9 [0x7A] (.piece 0xF0 [] (.interrupted .nothing)))))))
  obtain ⟨same, oneByte, -⟩ := readChars_of_pieces delivered 5
  refine ⟨⟨delivered, ?_⟩, oneByte 1 0x7A [] [.failure "broken"] (by decide)⟩
  rw [same]
  rfl

end FalseLang
