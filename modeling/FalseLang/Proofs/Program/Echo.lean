import FalseLang.Proofs.Device.Delivery
import FalseLang.Proofs.Machine.Sink
import FalseLang.Proofs.Program.Execution

/-
  Echo: a program that writes what it reads.

  Each round of its loop reads a character and writes it. The end of the input and
  bytes that are no character look the same to the program, and both end the loop. So
  it writes the characters that stand at the front of the input (`Utf8.Readable`), and
  their encoding is the longest prefix of the input that is well-formed
  (`Utf8.Readable.longest`).

  The invariant of the loop relates the bytes that are still to be read with those that
  are written: as many characters as are readable in the first are still to be appended
  to the second (`Echo.iterates`).
-/

namespace FalseLang

/-! ## The text at the front of some bytes -/

namespace Utf8

/-- The characters that can be read from some bytes until they end or go on with something that
is no character. -/
inductive Readable : List UInt8 → List Char → Prop where
  | none {bs : List UInt8} (stuck : ∀ c left, bs ≠ String.utf8EncodeChar c ++ left) : Readable bs []
  | char {left : List UInt8} {text : List Char} (c : Char) (later : Readable left text) :
    Readable (String.utf8EncodeChar c ++ left) (c :: text)

theorem exists_readable (bs : List UInt8) : ∃ text, Readable bs text := by
  -- A character has at least one byte, so that fewer are left behind it.
  induction size : bs.length using Nat.strongRecOn generalizing bs with
  | ind n ih =>
    by_cases stuck : ∀ c left, bs ≠ String.utf8EncodeChar c ++ left
    · exact ⟨[], .none stuck⟩
    · simp only [not_forall, not_not] at stuck
      obtain ⟨c, left, rfl⟩ := stuck
      have positive := String.length_utf8EncodeChar c ▸ c.utf8Size_pos
      rw [List.length_append] at size
      obtain ⟨text, later⟩ := ih left.length (by omega) left rfl
      exact ⟨c :: text, .char c later⟩

/-- A text whose encoding is the longest prefix of some bytes that encodes a text. -/
structure Longest (bs : List UInt8) (text : List Char) : Prop where
  starts : encode text <+: bs
  longest : ∀ other, encode other <+: bs → (encode other).length ≤ (encode text).length

theorem encode_cons (c : Char) (text : List Char) :
    encode (c :: text) = String.utf8EncodeChar c ++ encode text := rfl

/-- Bytes begin with the encoding of one character at most. -/
theorem encodeChar_append_inj {c d : Char} {left more : List UInt8}
    (h : String.utf8EncodeChar c ++ left = String.utf8EncodeChar d ++ more) :
    c = d ∧ left = more := by
  have same := (next_eq_char_iff.2 rfl).symm.trans (next_eq_char_iff.2 h)
  simpa using same

theorem Readable.longest {bs : List UInt8} {text : List Char} (h : Readable bs text) :
    Longest bs text := by
  induction h with
  | none stuck =>
    refine ⟨List.nil_prefix, ?_⟩
    intro other starts
    cases other with
    | nil => exact Nat.le_refl _
    | cons c other =>
      obtain ⟨left, whole⟩ := starts
      rw [encode_cons, List.append_assoc] at whole
      exact absurd whole.symm (stuck c _)
  | char c later ih =>
    refine ⟨(List.prefix_append_right_inj _).2 ih.starts, ?_⟩
    intro other starts
    cases other with
    | nil => exact Nat.zero_le _
    | cons d other =>
      obtain ⟨more, whole⟩ := starts
      rw [encode_cons, List.append_assoc] at whole
      obtain ⟨rfl, rfl⟩ := encodeChar_append_inj whole
      have shorter := ih.longest other (List.prefix_append _ _)
      simp only [encode_cons, List.length_append]
      omega

/-- There is one such prefix. -/
theorem Longest.encode_unique {bs : List UInt8} {text other : List Char} (h : Longest bs text)
    (h' : Longest bs other) : encode text = encode other := by
  have length : (encode text).length = (encode other).length :=
    Nat.le_antisymm (h'.longest text h.starts) (h.longest other h'.starts)
  have start := List.prefix_of_prefix_length_le h.starts h'.starts (Nat.le_of_eq length)
  exact start.eq_of_length length

theorem longest_encode (text : List Char) : Longest (encode text) text :=
  ⟨List.prefix_rfl, fun _ starts => starts.length_le⟩

end Utf8

/-! ## Devices -/

/-- A device that takes all that is offered to it and never fails. -/
structure Output.Reliable (o : Output) : Prop where
  perCall : o.perCall ≠ some 0
  capacity : o.capacity = none
  flushes : o.flushFailsFrom = none

/-- The same device after one more flush. -/
def Output.flushed (o : Output) : Output := { o with flushes := o.flushes + 1 }

namespace Output.Reliable

variable {o : Output}

theorem append (h : o.Reliable) (bytes : List UInt8) : (o.append bytes).Reliable :=
  ⟨h.perCall, h.capacity, h.flushes⟩

theorem flushed (h : o.Reliable) : o.flushed.Reliable := ⟨h.perCall, h.capacity, h.flushes⟩

theorem flush_eq (h : o.Reliable) : Output.flush o = .ok () o.flushed := by
  simp [Output.flush, h.flushes, Output.flushed]

theorem takesAll (h : o.Reliable) : o.TakesAll := ⟨h.perCall, h.capacity⟩

end Output.Reliable

/-- What a program is given when it reads. A failure is no character. -/
def Input.given (i : Input) : Option Char := (resultValue i.readChar).toOption.join

namespace Input

variable {i : Input} {bs left : List UInt8}

theorem given_of_char {c : Char} (h : i.HandsOut (String.utf8EncodeChar c ++ left)) :
    i.given = some c ∧ (resultState i.readChar).HandsOut left := by
  obtain ⟨value, behind⟩ := (reads_iff h).2 (Utf8.next_eq_char_iff.2 rfl)
  exact ⟨by rw [given, value]; rfl, behind⟩

theorem given_of_stuck (h : i.HandsOut bs)
    (stuck : ∀ c left, bs ≠ String.utf8EncodeChar c ++ left) : i.given = none := by
  obtain ⟨value, -⟩ := reads_next h
  rw [given, value]
  cases result : Utf8.next bs with
  | mk read left =>
    match read with
    | .ok none => rfl
    | .error e => rfl
    | .ok (some c) => exact absurd (Utf8.next_eq_char_iff.1 result) (stuck c left)

end Input

theorem Action.readChar_eq (c : Context) :
    readChar c = .ok c.input.given { c with input := resultState c.input.readChar } := by
  unfold readChar Input.given
  cases c.input.readChar <;> rfl

/-! ## Reading and writing on a known stack -/

/-- The integer that stands for what was read. -/
def Integer.ofInput : Option Char → Int64
  | some c => Integer.ofChar c
  | none => -1

theorem Integer.ofInput_ne_iff (char : Option Char) : Integer.ofInput char ≠ -1 ↔ char.isSome := by
  cases char with
  | none => simp [ofInput]
  | some c =>
    simp only [ofInput, ne_eq, Option.isSome_some, iff_true]
    intro same
    have value := Integer.toInt_ofChar c
    rw [same, show (-1 : Int64).toInt = -1 from rfl] at value
    omega

namespace Context

/-- The context after a reading, before which the output is flushed. -/
def reading (c : Context) : Context :=
  { c with input := resultState c.input.readChar, output := c.output.flushed }

/-- The context after bytes were written. -/
def writing (c : Context) (bytes : List UInt8) : Context :=
  { c with output := c.output.append bytes }

variable {c : Context} {s : Stack} {line : Nat} {rest : Code} {o : Outcome}

theorem yields_readChar (reliable : c.output.Reliable) :
    (c.on s).Yields (.op line (.primitive .readChar) :: rest) o ↔
      (c.reading.on (.integer (Integer.ofInput c.input.given) :: s)).Yields rest o := by
  have flushed : Action.flushOutput (c.on s) = .ok () { c.on s with output := c.output.flushed } :=
    Action.onOutput_of_ok reliable.flush_eq
  have read := Action.readChar_eq { c.on s with output := c.output.flushed }
  have performed : Primitive.perform .readChar (c.on s) =
      .ok () (c.reading.on (.integer (Integer.ofInput c.input.given) :: s)) := by
    refine (Action.bind_of_ok flushed _).trans ((Action.bind_of_ok read _).trans ?_)
    show (match c.input.given with
      | some c => Action.pushInteger (Integer.ofChar c)
      | none => Action.pushInteger (-1)) (c.reading.on s) = _
    cases c.input.given <;> rfl
  exact yields_cons_of_proceed (Action.bind_of_ok performed _)

theorem yields_writeChar (reliable : c.output.Reliable) (char : Char) :
    (c.on (.integer (Integer.ofChar char) :: s)).Yields
        (.op line (.primitive .writeChar) :: rest) o ↔
      ((c.writing (String.utf8EncodeChar char)).on s).Yields rest o := by
  have code : Integer.toChar (Integer.ofChar char) = .ok char := by
    rw [Integer.toChar, Integer.toChar?_eq_some_iff.2 (Integer.toInt_ofChar char)]
  have written : Action.write (String.utf8EncodeChar char) (c.on s) =
      .ok () ((c.writing (String.utf8EncodeChar char)).on s) :=
    Action.onOutput_of_ok (reliable.takesAll.write_eq _)
  have performed : Primitive.perform .writeChar (c.on (.integer (Integer.ofChar char) :: s)) =
      .ok () ((c.writing (String.utf8EncodeChar char)).on s) := by
    show (Action.lift (Integer.toChar (Integer.ofChar char)) >>= fun c =>
      Action.write (String.utf8EncodeChar c)) (c.on s) = _
    rw [code]
    exact written
  exact yields_cons_of_proceed (Action.bind_of_ok performed _)

end Context

/-! ## The program -/

namespace Echo

/-- The code of `^$1_=~`. -/
def condition : Code :=
  [.op 1 (.primitive .readChar), .op 1 (.primitive .duplicate), .op 1 (.integer (-1)),
    .op 1 (.primitive .equal), .op 1 (.primitive .not)]

/-- The code of `,`. -/
def body : Code := [.op 1 (.primitive .writeChar)]

/-- The code of the loop, which drops the integer that ended it. -/
def program : Code := Code.loopOf 1 1 1 condition body ++ [.op 1 (.primitive .drop)]

theorem parse_source : parse "[^$1_=~][,]#%" = .ok program := by with_unfolding_all rfl

variable {c : Context} {s : Stack} {bs : List UInt8} {text : List Char}

/-- The condition leaves what it has read and whether that is a character. -/
theorem nests_condition (room : c.depth < c.limit) (reliable : c.output.Reliable) :
    (c.on s).Nests 1 condition ⟨.ok (), c.reading.on
      (.integer (Integer.ofBool c.input.given.isSome) ::
        .integer (Integer.ofInput c.input.given) :: s)⟩ := by
  have tested : (!decide (Integer.ofInput c.input.given = -1)) = c.input.given.isSome := by
    rw [← decide_not, Bool.decide_congr (Integer.ofInput_ne_iff _), Bool.decide_eq_true]
  apply Context.Nests.of_room room
  apply (Context.yields_readChar (c := c.inner) reliable).2
  apply Context.yields_duplicate.2
  apply Context.yields_integer.2
  apply (Context.yields_binary .equal rfl).2
  apply (Context.yields_not _).2
  apply Context.yields_nil.2
  rw [← tested]
  rfl

/-- The body writes a character that is on the stack. -/
theorem nests_body (room : c.depth < c.limit) (reliable : c.output.Reliable) (char : Char) :
    (c.on (.integer (Integer.ofChar char) :: s)).Nests 1 body
      ⟨.ok (), (c.writing (String.utf8EncodeChar char)).on s⟩ := by
  apply Context.Nests.of_room room
  apply (Context.yields_writeChar (c := c.inner) reliable char).2
  exact Context.yields_nil.2 rfl

/-- The loop writes what is readable and leaves the integer that ended it. -/
theorem iterates (readable : Utf8.Readable bs text) (room : c.depth < c.limit)
    (delivered : c.input.HandsOut bs) (reliable : c.output.Reliable) :
    ∃ d : Context, (c.on s).Iterates 1 condition body ⟨.ok (), d.on (.integer (-1) :: s)⟩ ∧
      d.output.written.toList = c.output.written.toList ++ Utf8.encode text := by
  -- A round is a character. Both devices change in it, and the next round finds them in the
  -- same relation again: the bytes behind the character to be read, its bytes written.
  induction readable generalizing c with
  | none stuck =>
    have test := nests_condition (s := s) room reliable
    rw [Input.given_of_stuck delivered stuck] at test
    exact ⟨c.reading, Context.Iterates.of_stop test, (List.append_nil _).symm⟩
  | char char later ih =>
    obtain ⟨given, behind⟩ := Input.given_of_char delivered
    have test := nests_condition (s := s) room reliable
    rw [given] at test
    have round := nests_body (c := c.reading) (s := s) room reliable.flushed char
    obtain ⟨d, others, written⟩ := ih (c := c.reading.writing (String.utf8EncodeChar char)) room
      behind (reliable.flushed.append _)
    refine ⟨d, Context.Iterates.of_round test round others, ?_⟩
    rw [written, Utf8.encode_cons, ← List.append_assoc]
    exact congrArg (· ++ _) (Output.written_append _ _)

end Echo

/-- **The echo program copies its input.** However the bytes arrive, it ends with an empty stack
and has written the longest prefix of them that is UTF-8, which is all of them if they are
UTF-8. -/
theorem echo_copies_input {bs : List UInt8} {input : Input} {output : Output} {m : Nat}
    (delivered : input.HandsOut bs) (reliable : output.Reliable) (room : 1 ≤ m) :
    ∃ (d : Context) (text : List Char),
      Context.Interprets { input := input, output := output, limit := m } "[^$1_=~][,]#%"
        ⟨.ok (), d⟩ ∧
      d.stack = [] ∧
      d.output.written.toList = output.written.toList ++ Utf8.encode text ∧
      Utf8.Longest bs text ∧
      ∀ all, Utf8.encode all = bs →
        d.output.written.toList = output.written.toList ++ bs := by
  obtain ⟨text, readable⟩ := Utf8.exists_readable bs
  let c : Context := { input := input, output := output, limit := m }
  obtain ⟨d, iterates, written⟩ := Echo.iterates (c := c) (s := []) readable room delivered reliable
  have loops : c.Yields (Code.loopOf 1 1 1 Echo.condition Echo.body) ⟨.ok (), _⟩ :=
    Context.yields_loopOf.2 iterates
  have drops : (d.on [.integer (-1)]).Yields [.op 1 (.primitive .drop)] ⟨.ok (), d.on []⟩ :=
    Context.yields_drop.2 (Context.yields_nil.2 rfl)
  refine ⟨d.on [], text, ?_, rfl, written, readable.longest, ?_⟩
  · have yields : c.Yields Echo.program ⟨.ok (), d.on []⟩ :=
      Context.yields_append.2 ⟨_, loops, drops⟩
    exact yields.interprets Echo.parse_source
  · intro all whole
    have longest := Utf8.longest_encode all
    rw [whole] at longest
    rw [← whole, longest.encode_unique readable.longest]
    exact written

/-- A zero, an accented letter and two bytes of a sign that has three, in pieces. The sign is not
copied, and the rest is written byte by byte behind what the device has held. -/
theorem echo_copies_input_truncated :
    Input.HandsOut { deliveries := [.bytes [0x00, 0xC3], .interrupted, .bytes [0xA9, 0xE2, 0x82]] }
        [0x00, 0xC3, 0xA9, 0xE2, 0x82] ∧
      Output.Reliable { written := #[0x3E], perCall := some 1 } ∧ 1 ≤ 1 ∧
      ∃ d : Context,
        Context.Interprets
          { input := { deliveries :=
              [.bytes [0x00, 0xC3], .interrupted, .bytes [0xA9, 0xE2, 0x82]] }
            output := { written := #[0x3E], perCall := some 1 }
            limit := 1 }
          "[^$1_=~][,]#%" ⟨.ok (), d⟩ ∧
        d.stack = [] ∧ d.output.written.toList = [0x3E, 0x00, 0xC3, 0xA9] := by
  have delivered : Input.HandsOut
      { deliveries := [.bytes [0x00, 0xC3], .interrupted, .bytes [0xA9, 0xE2, 0x82]] }
      [0x00, 0xC3, 0xA9, 0xE2, 0x82] :=
    .piece 0x00 [0xC3] (.interrupted (.piece 0xA9 [0xE2, 0x82] .nothing))
  have reliable : Output.Reliable { written := #[0x3E], perCall := some 1 } :=
    ⟨by decide, rfl, rfl⟩
  have stuck (c : Char) (left : List UInt8) : [0xE2, 0x82] ≠ String.utf8EncodeChar c ++ left := by
    intro char
    cases Utf8.next_eq_char_iff.2 char
  have readable : Utf8.Readable [0x00, 0xC3, 0xA9, 0xE2, 0x82] ['\x00', 'é'] :=
    .char '\x00' (.char 'é' (.none stuck))
  obtain ⟨d, text, ends, empty, written, longest, -⟩ :=
    echo_copies_input delivered reliable (Nat.le_refl 1)
  rw [longest.encode_unique readable.longest] at written
  exact ⟨delivered, reliable, Nat.le_refl 1, d, ends, empty, written⟩

end FalseLang
