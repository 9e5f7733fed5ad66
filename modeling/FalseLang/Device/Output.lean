import FalseLang.Device.Error

/-
  Output: the device that bytes are written to.

  The device takes bytes in calls. A call may take fewer bytes than it is
  offered, and the device may hold a limited number of bytes in all. Writing
  repeats the call until all bytes are taken; a call that takes none is refused
  and ends it, and what was taken before stays written.
-/

namespace FalseLang

structure Output where
  written : Array UInt8 := #[]
  /-- The most bytes that one call takes. -/
  perCall : Option Nat := none
  /-- The most bytes that the device holds. -/
  capacity : Option Nat := none
  /-- The error of a call that takes nothing. -/
  refusal : DeviceError := .sinkFull
  flushes : Nat := 0
  /-- The number of the first flush that fails. -/
  flushFailsFrom : Option Nat := none
  deriving DecidableEq, Repr

namespace Output

/-- The most bytes that the next call takes; none means that it takes all. -/
def accepts (o : Output) : Option Nat :=
  match o.perCall, o.capacity with
  | none, none => none
  | some c, none => some c
  | none, some k => some (k - o.written.size)
  | some c, some k => some (min c (k - o.written.size))

def append (o : Output) (bytes : List UInt8) : Output :=
  { o with written := o.written ++ bytes }

/-- Write bytes, in as many calls as it takes. -/
def write (bytes : List UInt8) (o : Output) : EStateM.Result DeviceError Output Unit :=
  match bytes with
  | [] => .ok () o
  | b :: rest =>
    match o.accepts with
    | none => .ok () (o.append (b :: rest))
    | some 0 => .error o.refusal o
    | some (n + 1) => write (rest.drop n) (o.append (b :: rest.take n))
termination_by bytes.length

/-- Flush the device. Failed flushes are counted too. -/
def flush : EStateM DeviceError Output Unit := fun o =>
  let flushed := { o with flushes := o.flushes + 1 }
  if o.flushFailsFrom.any (· ≤ o.flushes) then .error .flushFailed flushed
  else .ok () flushed

end Output

end FalseLang
