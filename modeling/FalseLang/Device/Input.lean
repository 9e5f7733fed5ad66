import FalseLang.Device.Error
import FalseLang.Utf8

/-
  Input: the device that characters are read from.

  What lies behind the device hands out bytes in deliveries of any size, and may
  be interrupted or fail in between. Reading goes on after an interruption; any
  other failure ends the reading of one character, and the bytes read for it
  until then are gone. A character is read byte by byte: the first byte says how
  many follow, all of them are read, and then they are decoded.
-/

namespace FalseLang

/-- What one request to the source of the input gives. -/
inductive Delivery where
  /-- Bytes; none at all means that the input has ended for now. -/
  | bytes (bytes : List UInt8)
  /-- Nothing happened, and the request may be repeated. -/
  | interrupted
  | failure (text : String)
  deriving DecidableEq, Repr

/-- The input device: what is still to be delivered, how often it was flushed,
and the number of the first flush that fails, if any does. -/
structure Input where
  deliveries : List Delivery := []
  flushes : Nat := 0
  flushFailsFrom : Option Nat := none
  deriving DecidableEq, Repr

/-- An input that delivers the given bytes at once. -/
def Input.ofBytes (bytes : List UInt8) : Input := { deliveries := [.bytes bytes] }

/-- Reading from deliveries. A failed reading keeps what it has used up. -/
abbrev Reading := EStateM DeviceError (List Delivery)

namespace Reading

/-- What is left of a delivery after its first byte, put back before the others. -/
def putBack : List UInt8 → List Delivery → List Delivery
  | [], later => later
  | left, later => .bytes left :: later

/-- The next byte of some deliveries, or none where the input has ended. -/
def nextByte : List Delivery → EStateM.Result DeviceError (List Delivery) (Option UInt8)
  | [] => .ok none []
  | .interrupted :: later => nextByte later
  | .failure text :: later => .error (.reported text) later
  | .bytes [] :: later => .ok none later
  | .bytes (b :: left) :: later => .ok (some b) (putBack left later)

def byte : Reading (Option UInt8) := nextByte

/-- Read a number of bytes, all of which must be there. -/
def bytes : Nat → Reading (List UInt8)
  | 0 => pure []
  | n + 1 => do
    match ← byte with
    | none => throw .endInsideCharacter
    | some b =>
      let rest ← bytes n
      return b :: rest

/-- Read a character, or none where the input has ended. -/
def char : Reading (Option Char) := do
  match ← byte with
  | none => return none
  | some first =>
    match Utf8.width? first with
    | none => throw .invalidText
    | some width =>
      let rest ← bytes (width - 1)
      match Utf8.decodeChar? (first :: rest) with
      | none => throw .invalidText
      | some c => return some c

end Reading

namespace Input

def readChar : EStateM DeviceError Input (Option Char) := fun ⟨deliveries, flushes, failsFrom⟩ =>
  match Reading.char deliveries with
  | .ok c left => .ok c ⟨left, flushes, failsFrom⟩
  | .error e left => .error e ⟨left, flushes, failsFrom⟩

/-- Flush the device. Failed flushes are counted too. -/
def flush : EStateM DeviceError Input Unit := fun i =>
  let flushed := { i with flushes := i.flushes + 1 }
  if i.flushFailsFrom.any (· ≤ i.flushes) then .error .inputFlushFailed flushed
  else .ok () flushed

end Input

end FalseLang
