import FalseLang.Code.Parse

/-
  Flattening: the tokens of a piece of code.

  A quotation becomes its body between brackets. The walk keeps the code that
  follows each open quotation in a list, so that deep nesting is no different
  from long code. `parseTokens_flatten` says that parsing the tokens gives the
  code back, lines included; so code is determined by its tokens, and `same`,
  which compares tokens, decides equality of code.
-/

namespace FalseLang

mutual

def Instruction.tokenCount : Instruction → Nat
  | .op _ _ => 1
  | .quotation _ body => Code.tokenCount body + 2

def Code.tokenCount : Code → Nat
  | [] => 0
  | i :: rest => i.tokenCount + Code.tokenCount rest

end

namespace Code

/-- The number of tokens that close the quotations a walk is inside of and follow them. -/
def outerCount : List (Nat × Code) → Nat
  | [] => 0
  | (_, rest) :: outer => 1 + tokenCount rest + outerCount outer

/-- Puts the tokens of code behind those already written; `outer` is the code
that follows each quotation the walk is inside of, with the quotation's line. -/
def flattenOnto (written : Array (Located Token)) :
    Code → List (Nat × Code) → Array (Located Token)
  | [], [] => written
  | [], (line, rest) :: outer => flattenOnto (written.push ⟨line, .closing⟩) rest outer
  | .op line o :: rest, outer => flattenOnto (written.push ⟨line, .op o⟩) rest outer
  | .quotation line body :: rest, outer =>
    flattenOnto (written.push ⟨line, .opening⟩) body ((line, rest) :: outer)
termination_by code outer => tokenCount code + outerCount outer
decreasing_by
  all_goals simp only [tokenCount, outerCount, Instruction.tokenCount]
  all_goals omega

/-- The tokens of code. Both brackets of a quotation have its line. -/
def flatten (code : Code) : Array (Located Token) := flattenOnto #[] code []

/-- Whether two pieces of code are the same, with the same lines. -/
def same (a b : Code) : Bool := a.flatten == b.flatten

/-! ## Flattening and parsing are inverse -/

/-- The code of which `code` is the innermost part still to be read: `current`
stands before it, in reverse, and `outer` follows the open quotations. -/
def regrow (current : List Instruction) (code : Code) :
    List Unclosed → List (Nat × Code) → Code
  | u :: unclosed, (_, rest) :: outer =>
    regrow (.quotation u.line (current.reverse ++ code) :: u.before) rest unclosed outer
  | _, _ => current.reverse ++ code

/-- The tokens that the walk adds are parsed to the code it walks over, inside
any quotations that are open. -/
theorem parseInside_flattenOnto (written : Array (Located Token)) (code : Code)
    (outer : List (Nat × Code)) (current : List Instruction) (unclosed : List Unclosed)
    (h : unclosed.length = outer.length) :
    ∃ tail : List (Located Token),
      (flattenOnto written code outer).toList = written.toList ++ tail ∧
      parseInside current unclosed tail = .ok ⟨regrow current code unclosed outer, []⟩ := by
  fun_induction flattenOnto written code outer generalizing current unclosed with
  | case1 written =>
    refine ⟨[], by simp, ?_⟩
    cases unclosed with
    | nil => simp [parseInside, closeAll, regrow]
    | cons u us => simp at h
  | case2 written line rest outer ih =>
    cases unclosed with
    | nil => simp at h
    | cons u us =>
      obtain ⟨tail, eq, parsed⟩ :=
        ih (.quotation u.line current.reverse :: u.before) us (by simpa using h)
      refine ⟨⟨line, .closing⟩ :: tail, by simp [eq], ?_⟩
      simp [parseInside, parsed, regrow]
  | case3 written line o rest outer ih =>
    obtain ⟨tail, eq, parsed⟩ := ih (.op line o :: current) unclosed h
    refine ⟨⟨line, .op o⟩ :: tail, by simp [eq], ?_⟩
    rw [parseInside, parsed]
    cases unclosed <;> cases outer <;> simp [regrow]
  | case4 written line body rest outer ih =>
    obtain ⟨tail, eq, parsed⟩ := ih [] (⟨line, current⟩ :: unclosed) (by simpa using h)
    refine ⟨⟨line, .opening⟩ :: tail, by simp [eq], ?_⟩
    rw [parseInside, parsed]
    cases unclosed <;> cases outer <;> simp [regrow]

/-- Parsing the tokens of code gives the code back. -/
theorem parseTokens_flatten (code : Code) : parseTokens code.flatten.toList = .ok ⟨code, []⟩ := by
  obtain ⟨tail, eq, parsed⟩ := parseInside_flattenOnto #[] code [] [] [] rfl
  rw [flatten, eq]
  simpa [parseTokens, regrow] using parsed

/-- Code is determined by its tokens, so comparing tokens compares code. -/
theorem same_iff {a b : Code} : a.same b = true ↔ a = b := by
  rw [same, beq_iff_eq]
  constructor
  · intro h
    have read := parseTokens_flatten a
    rw [h, parseTokens_flatten b] at read
    injection read with read
    injection read with read
    exact read.symm
  · rintro rfl
    rfl
end Code

end FalseLang
