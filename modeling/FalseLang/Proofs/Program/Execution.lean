import FalseLang.Program
import FalseLang.Proofs.Code.Lines
import FalseLang.Proofs.Machine.Expression
import FalseLang.Proofs.Machine.Unrolling

/-
  Execution: programs of which every instruction is known.

  Here are the rules by which the run of such a program is followed from its source
  text to its end. A text is read token by token (`tokensFrom_readsAs`), and code is
  run instruction by instruction: each rule says what is left to be run once an
  instruction has found its operands on top of the stack (`yields_integer` and the
  rules behind it). All of them hold in both directions, so that one lemma about a
  quotation serves for runs that end well and for those that fail.

  `Context.Interprets` is the whole of it, from the source text to the outcome.
-/

namespace FalseLang

/-! ## Instructions on a known stack -/

namespace Context

/-- The context with another stack. -/
def on (c : Context) (s : Stack) : Context := { c with stack := s }

/-- The context one level deeper. -/
def inner (c : Context) : Context := { c with depth := c.depth + 1 }

/-- The context in which a variable was written. -/
def binding (c : Context) (name : Letter) (v : Value) : Context :=
  { c with environment := c.environment.store name v }

section Rules

variable {c : Context} {s : Stack} {v : Value} {a b n : Int64} {line : Nat} {body rest : Code}
  {o : Outcome}

/-- An instruction that fails ends the run, at its own line. -/
theorem yields_cons_of_fault {d : Context} {i : Instruction} {fault : Fault}
    (h : i.perform c = .error fault d) :
    c.Yields (i :: rest) o ↔ o = ⟨.error ⟨i.line, fault⟩, d⟩ := by
  rw [yields_cons]
  simp only [performs_iff_of_fault h, exists_eq_left]
  exact Iff.rfl

theorem yields_integer : (c.on s).Yields (.op line (.integer n) :: rest) o ↔
    (c.on (.integer n :: s)).Yields rest o :=
  yields_cons_of_proceed rfl

theorem yields_quotation : (c.on s).Yields (.quotation line body :: rest) o ↔
    (c.on (.quotation body :: s)).Yields rest o :=
  yields_cons_of_proceed rfl

theorem yields_duplicate : (c.on (v :: s)).Yields (.op line (.primitive .duplicate) :: rest) o ↔
    (c.on (v :: v :: s)).Yields rest o :=
  yields_cons_of_proceed rfl

theorem yields_drop : (c.on (v :: s)).Yields (.op line (.primitive .drop) :: rest) o ↔
    (c.on s).Yields rest o :=
  yields_cons_of_proceed rfl

theorem yields_swap {w : Value} :
    (c.on (v :: w :: s)).Yields (.op line (.primitive .swap) :: rest) o ↔
      (c.on (w :: v :: s)).Yields rest o :=
  yields_cons_of_proceed rfl

/-- The third value comes to the top. -/
theorem yields_rotate {w x : Value} :
    (c.on (v :: w :: x :: s)).Yields (.op line (.primitive .rotate) :: rest) o ↔
      (c.on (x :: v :: w :: s)).Yields rest o :=
  yields_cons_of_proceed rfl

/-- A name and an instruction that writes the variable. -/
theorem yields_store {name : Letter} :
    (c.on (v :: s)).Yields (.op line (.letter name) :: .op line .store :: rest) o ↔
      ((c.binding name v).on s).Yields rest o :=
  (yields_cons_of_proceed (d := c.on (.name name :: v :: s)) rfl).trans
    (yields_cons_of_proceed rfl)

/-- A name and an instruction that reads the variable, which was written before. -/
theorem yields_load {name : Letter} (bound : c.environment.get name = some v) :
    (c.on s).Yields (.op line (.letter name) :: .op line .load :: rest) o ↔
      (c.on (v :: s)).Yields rest o := by
  have found : c.environment.load name = .ok v := by simp [Environment.load, bound]
  refine (yields_cons_of_proceed (d := c.on (.name name :: s)) rfl).trans ?_
  apply yields_cons_of_proceed
  show (Action.lift (c.environment.load name) >>= fun v => Action.push v >>= fun _ =>
    pure Effect.proceed : Action Effect) (c.on s) = _
  rw [found]
  rfl

/-- The complement of a truth value. -/
theorem yields_not (more : Bool) :
    (c.on (.integer (Integer.ofBool more) :: s)).Yields (.op line (.primitive .not) :: rest) o ↔
      (c.on (.integer (Integer.ofBool !more) :: s)).Yields rest o := by
  cases more <;> exact yields_cons_of_proceed rfl

theorem yields_binary (p : BinaryOperator) (h : p.compute a b = .ok n) :
    (c.on (.integer b :: .integer a :: s)).Yields (.op line (.primitive p.primitive) :: rest) o ↔
      (c.on (.integer n :: s)).Yields rest o := by
  have performed := p.perform_integers line a b (c.on s)
  rw [h] at performed
  exact yields_cons_of_proceed performed

/-- An operator whose result is refused ends the run, and its operands are gone. -/
theorem yields_binary_fault (p : BinaryOperator) {fault : Fault}
    (h : p.compute a b = .error fault) :
    (c.on (.integer b :: .integer a :: s)).Yields (.op line (.primitive p.primitive) :: rest) o ↔
      o = ⟨.error ⟨line, fault⟩, c.on s⟩ := by
  have performed := p.perform_integers line a b (c.on s)
  rw [h] at performed
  exact yields_cons_of_fault performed

/-- A call that is the last instruction. -/
theorem yields_call : (c.on (.quotation body :: s)).Yields [.op line (.execute false)] o ↔
    (c.on s).Nests line body o :=
  yields_singleton.trans (performs_iff_of_call rfl)

/-- A conditional call that is the last instruction. -/
theorem yields_choice (more : Bool) :
    (c.on (.quotation body :: .integer (Integer.ofBool more) :: s)).Yields
        [.op line (.execute true)] o ↔
      if more then (c.on s).Nests line body o else o = ⟨.ok (), c.on s⟩ := by
  rw [yields_singleton]
  cases more with
  | true => exact performs_iff_of_call rfl
  | false => exact performs_iff_of_proceed rfl

/-- A truth value on top of the stack is what a loop tests. -/
theorem popBool_on (symbol : Char) (more : Bool) :
    Action.popBool symbol (c.on (.integer (Integer.ofBool more) :: s)) = .ok more (c.on s) := by
  cases more <;> rfl

/-- A quotation that there is room for is run one level deeper and left again. -/
theorem Nests.of_room {d : Context} {result : Except RuntimeError Unit}
    (room : c.depth < c.limit) (inside : (c.inner.on s).Yields body ⟨result, d.inner⟩) :
    (c.on s).Nests line body ⟨result, d⟩ :=
  .entered (c := c.on s) room inside

/-- It ends as the code in it does, if only the result is of interest. -/
theorem Nests.exists_of_room {result : Except RuntimeError Unit} (room : c.depth < c.limit)
    (inside : ∃ d, (c.inner.on s).Yields body ⟨result, d⟩) :
    ∃ d, (c.on s).Nests line body ⟨result, d⟩ := by
  obtain ⟨d, yields⟩ := inside
  exact ⟨d.leave, .entered (c := c.on s) room yields⟩

/-- A loop ends where its condition leaves false. -/
theorem Iterates.of_stop {condition : Code} {d : Context} {t : Stack}
    (test : c.Nests line condition ⟨.ok (), d.on (.integer (Integer.ofBool false) :: t)⟩) :
    c.Iterates line condition body ⟨.ok (), d.on t⟩ :=
  .stops test (popBool_on '#' false)

/-- A round of a loop whose condition leaves true, and the rounds behind it. -/
theorem Iterates.of_round {condition : Code} {d e : Context} {t : Stack}
    (test : c.Nests line condition ⟨.ok (), d.on (.integer (Integer.ofBool true) :: t)⟩)
    (round : (d.on t).Nests line body ⟨.ok (), e⟩) (later : e.Iterates line condition body o) :
    c.Iterates line condition body o :=
  .again test (popBool_on '#' true) round later

end Rules

end Context

/-! ## Sources -/

/-- A text on one line that is read as a token is read before what follows it. -/
theorem tokensFrom_readsAs {t : Token} {text rest : List Char} (h : ReadsAs t text rest)
    (oneLine : '\n' ∉ text) (line : Nat) :
    tokensFrom line (lexemes (text ++ rest)) =
      (tokensFrom line (lexemes rest)).map (⟨line, t⟩ :: ·) := by
  obtain ⟨c, cs, l, rfl, -, next, token⟩ := h
  have whole := Lexeme.next_text c (cs ++ rest)
  rw [next, ← List.cons_append] at whole
  have same : l.text = c :: cs := List.append_cancel_right whole
  have newlines : l.newlines = 0 := by rw [Lexeme.newlines, same, List.count_eq_zero.2 oneLine]
  have place : l.lineFrom line = line := by
    have between := l.lineFrom_bounds line
    omega
  rw [List.cons_append, lexemes_cons, next, tokensFrom_cons_some token, newlines, place,
    Nat.add_zero]

/-- A character with a meaning of its own is read before whatever follows it. -/
theorem tokensFrom_plain {c : Char} {t : Token} (plain : isPlain c = true)
    (h : Token.ofChar? c = some t) (line : Nat) (rest : List Char) :
    tokensFrom line (lexemes (c :: rest)) =
      (tokensFrom line (lexemes rest)).map (⟨line, t⟩ :: ·) := by
  have oneLine : '\n' ∉ [c] := by
    intro mem
    rw [← List.mem_singleton.1 mem] at plain
    exact absurd plain (by decide)
  exact tokensFrom_readsAs (readsAs_plain plain h rest) oneLine line

/-- A literal is read before what cannot belong to it. -/
theorem tokensFrom_literal (n : Int64) {rest : List Char} (stops : Stops rest) (line : Nat) :
    tokensFrom line (lexemes ((Integer.literal n).toList ++ rest)) =
      (tokensFrom line (lexemes rest)).map (⟨line, .op (.integer n)⟩ :: ·) := by
  have digits : ∀ c ∈ Nat.toDigits 10 n.toInt.natAbs, c.isDigit = true := fun c mem =>
    Nat.isDigit_of_mem_toDigits (by decide) (by decide) mem
  apply tokensFrom_readsAs (readsAs_integer n stops)
  rw [toList_literal]
  exact List.count_eq_zero.1 (Lexeme.newlines_integer digits _)

/-- Reading a source text and running it in the context ends like this. -/
def Context.Interprets (c : Context) (source : String) (r : Run) : Prop :=
  ∃ steps, runSource steps source c = some r

namespace Context

variable {c : Context} {source : String} {code : Code} {o p : Outcome} {r r' : Run}

theorem Yields.unique (h : c.Yields code o) (h' : c.Yields code p) : o = p := by
  obtain ⟨n, ended⟩ := h
  obtain ⟨m, ended'⟩ := h'
  have first := Machine.run_add ended m
  have second := Machine.run_add ended' n
  rw [Nat.add_comm, second] at first
  exact (Option.some.inj first).symm

/-- More steps than it takes make no difference. -/
theorem Interprets.unique (h : c.Interprets source r) (h' : c.Interprets source r') : r = r' := by
  obtain ⟨n, ended⟩ := h
  obtain ⟨m, ended'⟩ := h'
  unfold runSource at ended ended'
  cases parsed : parse source with
  | error e =>
    rw [parsed] at ended ended'
    exact Option.some.inj (ended.symm.trans ended')
  | ok code =>
    rw [parsed] at ended ended'
    obtain ⟨o, ran, rfl⟩ := Option.map_eq_some_iff.1 ended
    obtain ⟨p, ran', rfl⟩ := Option.map_eq_some_iff.1 ended'
    rw [Yields.unique ⟨n, ran⟩ ⟨m, ran'⟩]

/-- A source is run as the code that is read from it. -/
theorem Yields.interprets (parsed : parse source = .ok code) (h : c.Yields code o) :
    c.Interprets source (Run.ofOutcome o) := by
  obtain ⟨steps, ended⟩ := h
  refine ⟨steps, ?_⟩
  unfold runSource
  simp only [parsed, ended, Option.map_some]

end Context

end FalseLang
