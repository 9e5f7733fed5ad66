/-
  Device errors: what can go wrong between a program and the two devices it
  talks to.
-/

namespace FalseLang

/-- Why a device refused a request. -/
inductive DeviceError where
  /-- The bytes read are not a character in UTF-8. -/
  | invalidText
  /-- The input ended inside a character. -/
  | endInsideCharacter
  /-- The source of the input reported a failure of its own. -/
  | reported (text : String)
  | sinkFull
  /-- The output took no byte of a non-empty text, and reported no reason. -/
  | incompleteWrite
  | flushFailed
  | inputFlushFailed
  deriving DecidableEq, Repr

def DeviceError.message : DeviceError → String
  | .invalidText => "input is not valid UTF-8"
  | .endInsideCharacter => "failed to fill whole buffer"
  | .reported text => text
  | .sinkFull => "sink full"
  | .incompleteWrite => "failed to write whole buffer"
  | .flushFailed => "flush failed"
  | .inputFlushFailed => "input flush failed"

end FalseLang
