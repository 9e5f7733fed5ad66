import FalseLang.Device.Input
import FalseLang.Device.Output
import FalseLang.Environment
import FalseLang.Stack

/-
  Contexts: the state a program runs in, and the small actions on it.

  An action changes the context and gives a result or a fault. A fault keeps the
  context as the action has left it, so operands taken before the fault stay
  taken and bytes written before it stay written.
-/

namespace FalseLang

/-- The deepest that quotations run inside each other unless a limit is given. -/
def defaultLimit : Nat := 100000

/-- The state a program runs in. -/
structure Context where
  stack : Stack := []
  environment : Environment := .empty
  input : Input := {}
  output : Output := {}
  /-- The deepest that quotations may run inside each other. -/
  limit : Nat := defaultLimit
  /-- How deep the running quotation is inside others. -/
  depth : Nat := 0
  deriving Repr

/-- A change of the context that gives a result or a fault. -/
abbrev Action := EStateM Fault Context

namespace Action

/-- A result, or the fault that stands in its place. -/
def lift {α : Type} : Except Fault α → Action α
  | .ok a => pure a
  | .error fault => throw fault

def push (v : Value) : Action Unit := modify fun c => { c with stack := v :: c.stack }

def pushInteger (n : Int64) : Action Unit := push (.integer n)

def pop (symbol : Char) : Action Value := fun c =>
  match c.stack.pop symbol with
  | .ok (v, rest) => .ok v { c with stack := rest }
  | .error fault => .error fault c

def peek (symbol : Char) : Action Value := fun c =>
  match c.stack.peek symbol with
  | .ok v => .ok v c
  | .error fault => .error fault c

def popInteger (symbol : Char) : Action Int64 := do
  let v ← pop symbol
  lift (v.toInteger symbol)

def popBool (symbol : Char) : Action Bool := do
  let v ← pop symbol
  lift (v.toBool symbol)

def popQuotation (symbol : Char) : Action Code := do
  let v ← pop symbol
  lift (v.toQuotation symbol)

def popName (symbol : Char) : Action Letter := do
  let v ← pop symbol
  lift (v.toName symbol)

/-- Do something to the output; an error of the device is a fault. -/
def onOutput (act : Output → EStateM.Result DeviceError Output Unit) : Action Unit :=
  fun ⟨stack, environment, input, output, limit, depth⟩ =>
    match act output with
    | .ok () output => .ok () ⟨stack, environment, input, output, limit, depth⟩
    | .error e output => .error (.io e) ⟨stack, environment, input, output, limit, depth⟩

def write (bytes : List UInt8) : Action Unit := onOutput (Output.write bytes)

def flushOutput : Action Unit := onOutput Output.flush

def flushInput : Action Unit := fun c =>
  match c.input.flush with
  | .ok () input => .ok () { c with input := input }
  | .error e input => .error (.io e) { c with input := input }

/-- Read a character. A device that fails is like one that has ended. -/
def readChar : Action (Option Char) := fun c =>
  match c.input.readChar with
  | .ok char input => .ok char { c with input := input }
  | .error _ input => .ok none { c with input := input }

/-- Begin to run a quotation inside the one that is running. -/
def enter : Action Unit := fun c =>
  if c.limit ≤ c.depth then .error (.recursionLimit c.limit) c
  else .ok () { c with depth := c.depth + 1 }

end Action

/-- The context after a quotation inside the running one has ended. -/
def Context.leave (c : Context) : Context := { c with depth := c.depth - 1 }

end FalseLang
