import FalseLang.Machine

/-
  Evaluation: running code by functions that call each other.

  This is a second reading of the language. The machine keeps what is left to do
  in frames, its operations raise faults that stand on no line, and the line is
  added where an instruction fails. Here a quotation is run by a call, and every
  operation is told the symbol and the line that its errors name. An evaluation
  need not end, so `run` takes a bound on its calls and rounds and gives nothing
  if they go beyond it. `exists_run_iff` says that this is what the machine does.
-/

namespace FalseLang

/-- A part of an evaluation: it changes the context and gives a result or an error, or nothing
if it goes beyond its bound. -/
abbrev Evaluation := ExceptT RuntimeError (StateT Context Option)

namespace Evaluation

/-- A value, or an error where there is none. -/
def orError {α : Type} (e : RuntimeError) : Option α → Except RuntimeError α
  | some v => .ok v
  | none => .error e

/-! ## Values -/

def mismatch (symbol : Char) (expected : Kind) (line : Nat) (v : Value) : RuntimeError :=
  ⟨line, .typeMismatch symbol expected v.kind⟩

def asInteger (symbol : Char) (line : Nat) : Value → Except RuntimeError Int64
  | .integer n => .ok n
  | v => .error (mismatch symbol .integer line v)

def asQuotation (symbol : Char) (line : Nat) : Value → Except RuntimeError Code
  | .quotation body => .ok body
  | v => .error (mismatch symbol .quotation line v)

def asName (symbol : Char) (line : Nat) : Value → Except RuntimeError Letter
  | .name letter => .ok letter
  | v => .error (mismatch symbol .name line v)

def isTrue (symbol : Char) (line : Nat) (v : Value) : Except RuntimeError Bool := do
  let n ← asInteger symbol line v
  return n != 0

/-! ## Integers -/

def floorDiv (a b : Int64) (line : Nat) : Except RuntimeError Int64 := do
  if b = 0 then
    throw ⟨line, .divisionByZero⟩
  let quotient ← orError ⟨line, .overflow '/'⟩ (Integer.checkedDiv? a b)
  if a % b ≠ 0 ∧ decide (a < 0) ≠ decide (b < 0) then
    return quotient - 1
  else
    return quotient

def toChar (code : Int64) (line : Nat) : Except RuntimeError Char :=
  orError ⟨line, .invalidCharacter code⟩ (Integer.toChar? code)

def pickIndex (index : Int64) (depth line : Nat) : Except RuntimeError Nat :=
  if 0 ≤ index.toInt ∧ index.toInt < depth then .ok index.toNatClampNeg
  else .error ⟨line, .indexOutOfRange index depth⟩

/-! ## The stack, the variables and the devices -/

def push (v : Value) : Evaluation Unit := modify fun c => { c with stack := v :: c.stack }

def pop (symbol : Char) (line : Nat) : Evaluation Value := do
  let c ← get
  match c.stack with
  | [] => throw ⟨line, .stackUnderflow symbol⟩
  | v :: rest =>
    set { c with stack := rest }
    return v

def peek (symbol : Char) (line : Nat) : Evaluation Value := do
  orError ⟨line, .stackUnderflow symbol⟩ (← get).stack.head?

def popInteger (symbol : Char) (line : Nat) : Evaluation Int64 := do
  asInteger symbol line (← pop symbol line)

def load (name : Letter) (line : Nat) : Evaluation Value := do
  orError ⟨line, .unboundVariable name⟩ ((← get).environment.get name)

def onOutput (act : Output → EStateM.Result DeviceError Output Unit) (line : Nat) :
    Evaluation Unit := do
  let c ← get
  match act c.output with
  | .ok () output => set { c with output := output }
  | .error e output =>
    set { c with output := output }
    throw ⟨line, .io e⟩

def write (bytes : List UInt8) (line : Nat) : Evaluation Unit := onOutput (Output.write bytes) line

def flushInput (line : Nat) : Evaluation Unit := do
  let c ← get
  match c.input.flush with
  | .ok () input => set { c with input := input }
  | .error e input =>
    set { c with input := input }
    throw ⟨line, .io e⟩

/-- The code of the next character of the input. At its end, and if it fails, minus one. -/
def readInput (line : Nat) : Evaluation Int64 := do
  onOutput Output.flush line
  let c ← get
  match c.input.readChar with
  | .ok (some char) input =>
    set { c with input := input }
    return Integer.ofChar char
  | .ok none input =>
    set { c with input := input }
    return -1
  | .error _ input =>
    set { c with input := input }
    return -1

/-! ## Primitives -/

/-- Replace two integers by what is computed from them, the lower one first; nothing is computed
where the exact result is out of range. -/
def binary (symbol : Char) (line : Nat) (f : Int64 → Int64 → Option Int64) : Evaluation Unit := do
  let b ← popInteger symbol line
  let a ← popInteger symbol line
  let result ← orError ⟨line, .overflow symbol⟩ (f a b)
  push (.integer result)

def primitive (p : Primitive) (line : Nat) : Evaluation Unit := do
  let symbol := p.symbol
  match p with
  | .duplicate =>
    let top ← peek symbol line
    push top
  | .drop =>
    let _ ← pop symbol line
  | .swap =>
    let b ← pop symbol line
    let a ← pop symbol line
    push b
    push a
  | .rotate =>
    let c ← pop symbol line
    let b ← pop symbol line
    let a ← pop symbol line
    push b
    push c
    push a
  | .pick =>
    let index ← popInteger symbol line
    let stack := (← get).stack
    let i ← pickIndex index stack.length line
    let v ← orError ⟨line, .indexOutOfRange index stack.length⟩ (stack.fromTop? i)
    push v
  | .add => binary symbol line fun a b => Integer.ofInt? (a.toInt + b.toInt)
  | .subtract => binary symbol line fun a b => Integer.ofInt? (a.toInt - b.toInt)
  | .multiply => binary symbol line fun a b => Integer.ofInt? (a.toInt * b.toInt)
  | .divide =>
    let b ← popInteger symbol line
    let a ← popInteger symbol line
    push (.integer (← floorDiv a b line))
  | .bitAnd => binary symbol line fun a b => some (a &&& b)
  | .bitOr => binary symbol line fun a b => some (a ||| b)
  | .greater => binary symbol line fun a b => some (Integer.ofBool (b < a))
  | .equal => binary symbol line fun a b => some (Integer.ofBool (a = b))
  | .negate =>
    let a ← popInteger symbol line
    let negated ← orError ⟨line, .overflow symbol⟩ (Integer.ofInt? (-a.toInt))
    push (.integer negated)
  | .not =>
    let a ← popInteger symbol line
    push (.integer (Integer.ofBool (a = 0)))
  | .readChar =>
    let code ← readInput line
    push (.integer code)
  | .writeChar =>
    let c ← toChar (← popInteger symbol line) line
    write (String.utf8EncodeChar c) line
  | .writeDecimal =>
    let n ← popInteger symbol line
    write (Utf8.encode (Integer.decimal n).toList) line
  | .flush =>
    flushInput line
    onOutput Output.flush line

/-! ## Code -/

/-- Run a quotation one level deeper, for an instruction on the line. -/
def nested (run : Code → Evaluation Unit) (body : Code) (line : Nat) : Evaluation Unit :=
  fun c => do
    if c.limit ≤ c.depth then
      return (.error ⟨line, .recursionLimit c.limit⟩, c)
    let (result, d) ← run body { c with depth := c.depth + 1 }
    return (result, { d with depth := d.depth - 1 })

def execute (nested : Code → Nat → Evaluation Unit) (conditional : Bool) (line : Nat) :
    Evaluation Unit := do
  let symbol := if conditional then '?' else '!'
  let body ← asQuotation symbol line (← pop symbol line)
  if conditional then
    if !(← isTrue symbol line (← pop symbol line)) then
      return ()
  nested body line

def loop (rounds : Code → Code → Nat → Evaluation Unit) (line : Nat) : Evaluation Unit := do
  let body ← pop '#' line
  let condition ← pop '#' line
  let body ← asQuotation '#' line body
  let condition ← asQuotation '#' line condition
  rounds condition body line

def exec (nested : Code → Nat → Evaluation Unit) (rounds : Code → Code → Nat → Evaluation Unit) :
    Instruction → Evaluation Unit
  | .op _ (.integer value) => push (.integer value)
  | .op _ (.character code) => push (.integer code)
  | .op _ (.letter name) => push (.name name)
  | .quotation _ body => push (.quotation body)
  | .op line (.print text) => write (Utf8.encode text.toList) line
  | .op line (.primitive p) => primitive p line
  | .op line (.execute conditional) => execute nested conditional line
  | .op line .loop => loop rounds line
  | .op line .store => do
    let name ← asName ':' line (← pop ':' line)
    let v ← pop ':' line
    modify fun c => { c with environment := c.environment.store name v }
  | .op line .load => do
    let name ← asName ';' line (← pop ';' line)
    let v ← load name line
    push v

mutual

/-- Run code, one instruction after the other, up to the first that fails. -/
def run : Nat → Code → Evaluation Unit
  | 0, _ => fun _ => none
  | bound + 1, code => code.forM (exec (nested (run bound)) (rounds bound))

/-- The rounds of a loop: as long as the condition leaves true, the body. -/
def rounds : Nat → Code → Code → Nat → Evaluation Unit
  | 0, _, _, _ => fun _ => none
  | bound + 1, condition, body, line => do
    nested (run bound) condition line
    if !(← isTrue '#' line (← pop '#' line)) then
      return ()
    nested (run bound) body line
    rounds bound condition body line

end

end Evaluation

end FalseLang
