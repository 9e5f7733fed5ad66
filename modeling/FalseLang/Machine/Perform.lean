import FalseLang.Context

/-
  Performing an instruction: what one instruction does to the context, and what
  has to run next because of it.

  Operands are taken from the top one by one, and each is checked before the
  next is taken. Only a loop takes both its quotations first.
-/

namespace FalseLang

/-- What has to run after an instruction. -/
inductive Effect where
  /-- The instruction behind it. -/
  | proceed
  /-- The body of a quotation, then the instruction behind it. -/
  | call (body : Code)
  /-- A body again and again, as long as a condition leaves true. -/
  | loop (condition body : Code)

/-- Replace two integers by what is computed from them, the lower one first. -/
def Action.binary (symbol : Char) (f : Int64 → Int64 → Except Fault Int64) : Action Unit := do
  let b ← popInteger symbol
  let a ← popInteger symbol
  pushInteger (← lift (f a b))

def Primitive.perform (p : Primitive) : Action Unit := do
  let symbol := p.symbol
  match p with
  | .duplicate =>
    let v ← Action.peek symbol
    Action.push v
  | .drop =>
    let _ ← Action.pop symbol
  | .swap =>
    let b ← Action.pop symbol
    let a ← Action.pop symbol
    Action.push b
    Action.push a
  | .rotate =>
    let c ← Action.pop symbol
    let b ← Action.pop symbol
    let a ← Action.pop symbol
    Action.push b
    Action.push c
    Action.push a
  | .pick =>
    let index ← Action.popInteger symbol
    let v ← Action.lift ((← get).stack.pick index)
    Action.push v
  | .add => Action.binary symbol fun a b => Integer.orOverflow symbol (a.toInt + b.toInt)
  | .subtract => Action.binary symbol fun a b => Integer.orOverflow symbol (a.toInt - b.toInt)
  | .multiply => Action.binary symbol fun a b => Integer.orOverflow symbol (a.toInt * b.toInt)
  | .divide => Action.binary symbol Integer.floorDiv
  | .bitAnd => Action.binary symbol fun a b => .ok (a &&& b)
  | .bitOr => Action.binary symbol fun a b => .ok (a ||| b)
  | .greater => Action.binary symbol fun a b => .ok (Integer.ofBool (b < a))
  | .equal => Action.binary symbol fun a b => .ok (Integer.ofBool (a = b))
  | .negate =>
    let a ← Action.popInteger symbol
    Action.pushInteger (← Action.lift (Integer.orOverflow symbol (-a.toInt)))
  | .not =>
    let a ← Action.popInteger symbol
    Action.pushInteger (Integer.ofBool (a = 0))
  | .readChar =>
    Action.flushOutput
    match ← Action.readChar with
    | some c => Action.pushInteger (Integer.ofChar c)
    | none => Action.pushInteger (-1)
  | .writeChar =>
    let code ← Action.popInteger symbol
    let c ← Action.lift (Integer.toChar code)
    Action.write (String.utf8EncodeChar c)
  | .writeDecimal =>
    let n ← Action.popInteger symbol
    Action.write (Utf8.encode (Integer.decimal n).toList)
  | .flush =>
    Action.flushInput
    Action.flushOutput

/-- What an operation does, and what has to run after it. -/
def Op.perform : Op → Action Effect
  | .integer value => do
    Action.pushInteger value
    return .proceed
  | .character code => do
    Action.pushInteger code
    return .proceed
  | .letter name => do
    Action.push (.name name)
    return .proceed
  | .primitive p => do
    p.perform
    return .proceed
  | .print text => do
    Action.write (Utf8.encode text.toList)
    return .proceed
  | .execute false => do
    let body ← Action.popQuotation '!'
    return .call body
  | .execute true => do
    let body ← Action.popQuotation '?'
    if ← Action.popBool '?' then
      return .call body
    else
      return .proceed
  | .loop => do
    let body ← Action.pop '#'
    let condition ← Action.pop '#'
    let body ← Action.lift (body.toQuotation '#')
    let condition ← Action.lift (condition.toQuotation '#')
    return .loop condition body
  | .store => do
    let name ← Action.popName ':'
    let v ← Action.pop ':'
    modify fun c => { c with environment := c.environment.store name v }
    return .proceed
  | .load => do
    let name ← Action.popName ';'
    let v ← Action.lift ((← get).environment.load name)
    Action.push v
    return .proceed

/-- What an instruction does, and what has to run after it. Reaching a quotation
pushes it. -/
def Instruction.perform : Instruction → Action Effect
  | .op _ o => o.perform
  | .quotation _ body => do
    Action.push (.quotation body)
    return .proceed

end FalseLang
