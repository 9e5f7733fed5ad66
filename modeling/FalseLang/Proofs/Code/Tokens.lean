import FalseLang.Code.Render

/-
  The tokens of code, by structure.

  `Code.flatten` walks over code with a list of what is left to do. Here the
  tokens are given by recursion on the code (`Code.tokens`), and `toList_flatten`
  says that the walk gives the same ones.

  Lines only travel along. `mapLine` changes every line of a token, of code or of
  an error by one function; `parseTokens_mapLine` says that parsing does not
  look at lines, and `render_mapLine` that rendering does not show them. Two
  pieces of code are the same up to lines if they are equal once every line is
  replaced by the same number (`Code.unlined`).
-/

namespace FalseLang

mutual

/-- The tokens of an instruction: a quotation is its body between brackets. -/
def Instruction.tokens : Instruction → List (Located Token)
  | .op line o => [⟨line, .op o⟩]
  | .quotation line body => ⟨line, .opening⟩ :: (Code.tokens body ++ [⟨line, .closing⟩])

/-- The tokens of code, from left to right. -/
def Code.tokens : Code → List (Located Token)
  | [] => []
  | i :: rest => i.tokens ++ Code.tokens rest

end

namespace Code

@[simp]
theorem tokens_append (a b : Code) : tokens (a ++ b) = tokens a ++ tokens b := by
  induction a with
  | nil => rfl
  | cons i rest ih => simp only [List.cons_append, tokens, ih, List.append_assoc]

/-- The tokens that close the quotations a walk is inside of, with the code behind each. -/
def outerTokens : List (Nat × Code) → List (Located Token)
  | [] => []
  | (line, rest) :: outer => ⟨line, .closing⟩ :: (tokens rest ++ outerTokens outer)

theorem toList_flattenOnto (written : Array (Located Token)) (code : Code)
    (outer : List (Nat × Code)) :
    (flattenOnto written code outer).toList =
      written.toList ++ (tokens code ++ outerTokens outer) := by
  fun_induction flattenOnto written code outer with
  | case1 written => simp [tokens, outerTokens]
  | case2 written line rest outer ih => rw [ih]; simp [tokens, outerTokens]
  | case3 written line o rest outer ih => rw [ih]; simp [tokens, Instruction.tokens]
  | case4 written line body rest outer ih =>
    rw [ih]; simp [tokens, Instruction.tokens, outerTokens]

/-- The walk over code gives its tokens. -/
theorem toList_flatten (code : Code) : code.flatten.toList = code.tokens := by
  rw [flatten, toList_flattenOnto]
  simp [outerTokens]

/-- The tokens of code are parsed to the code. -/
theorem parseTokens_tokens (code : Code) : parseTokens code.tokens = .ok ⟨code, []⟩ := by
  rw [← toList_flatten]
  exact parseTokens_flatten code

end Code

/-! ## Changing lines -/

/-- The same value on another line. -/
def Located.mapLine {α : Type} (f : Nat → Nat) (x : Located α) : Located α := ⟨f x.line, x.val⟩

mutual

/-- The same instruction on other lines, its body included. -/
def Instruction.mapLine (f : Nat → Nat) : Instruction → Instruction
  | .op line o => .op (f line) o
  | .quotation line body => .quotation (f line) (Code.mapLine f body)

/-- The same code on other lines, at every level. -/
def Code.mapLine (f : Nat → Nat) : Code → Code
  | [] => []
  | i :: rest => i.mapLine f :: Code.mapLine f rest

end

/-- Code with all lines forgotten. -/
def Code.unlined (code : Code) : Code := code.mapLine fun _ => 0

/-- An open quotation on other lines. -/
def Unclosed.mapLine (f : Nat → Nat) (u : Unclosed) : Unclosed :=
  ⟨f u.line, Code.mapLine f u.before⟩

/-- A parsed program on other lines. -/
def Parsed.mapLine (f : Nat → Nat) (p : Parsed) : Parsed :=
  ⟨p.program.mapLine f, p.ignored.map (Located.mapLine f)⟩

namespace Code

variable (f : Nat → Nat)

theorem mapLine_append (a b : Code) : mapLine f (a ++ b) = mapLine f a ++ mapLine f b := by
  induction a with
  | nil => rfl
  | cons i rest ih => simp only [List.cons_append, mapLine, ih]

theorem mapLine_reverse (a : Code) : mapLine f a.reverse = (mapLine f a).reverse := by
  induction a with
  | nil => rfl
  | cons i rest ih => simp [mapLine_append, ih, mapLine]

mutual

/-- Changing the lines of an instruction changes those of its tokens. -/
theorem instruction_tokens_mapLine :
    ∀ i : Instruction, (i.mapLine f).tokens = i.tokens.map (Located.mapLine f)
  | .op line o => rfl
  | .quotation line body => by
    simp [Instruction.mapLine, Instruction.tokens, tokens_mapLine body, Located.mapLine]

/-- Changing the lines of code changes those of its tokens. -/
theorem tokens_mapLine :
    ∀ code : Code, (code.mapLine f).tokens = code.tokens.map (Located.mapLine f)
  | [] => rfl
  | i :: rest => by
    simp [mapLine, tokens, instruction_tokens_mapLine i, tokens_mapLine rest]

end

end Code

/-! ## Parsing and rendering do not look at lines -/

theorem closeAll_mapLine (f : Nat → Nat) (current : List Instruction) (unclosed : List Unclosed) :
    closeAll (Code.mapLine f current) (unclosed.map (Unclosed.mapLine f)) =
      Code.mapLine f (closeAll current unclosed) := by
  induction unclosed generalizing current with
  | nil => exact (Code.mapLine_reverse f current).symm
  | cons u outer ih =>
    show closeAll (.quotation (f u.line) (Code.mapLine f current).reverse ::
      Code.mapLine f u.before) (outer.map (Unclosed.mapLine f)) = _
    rw [← Code.mapLine_reverse]
    exact ih (.quotation u.line current.reverse :: u.before)

/-- What parsing gives on other lines: the same program or the same defect, there. -/
theorem parseInside_mapLine (f : Nat → Nat) (current : List Instruction)
    (unclosed : List Unclosed) (ts : List (Located Token)) :
    parseInside (Code.mapLine f current) (unclosed.map (Unclosed.mapLine f))
        (ts.map (Located.mapLine f)) =
      ((parseInside current unclosed ts).map (Parsed.mapLine f)).mapError
        (Located.mapLine f) := by
  fun_induction parseInside current unclosed ts with
  | case1 current unclosed =>
    simp only [List.map_nil, parseInside, closeAll_mapLine]
    rfl
  | case2 current unclosed line o rest ih => exact ih
  | case3 current unclosed line rest ih => exact ih
  | case4 current line rest =>
    simp only [List.map_cons, Located.mapLine, List.map_nil, parseInside]
    rw [← Code.mapLine_reverse]
    rfl
  | case5 current line rest u outer ih =>
    -- The body was collected in reverse, and its lines were changed before that is undone.
    rw [← ih]
    simp only [List.map_cons, Located.mapLine, parseInside, Unclosed.mapLine, Code.mapLine,
      Instruction.mapLine, Code.mapLine_reverse]
  | case6 current unclosed line rest => rfl
  | case7 current unclosed line rest => rfl

theorem parseTokens_mapLine (f : Nat → Nat) (ts : List (Located Token)) :
    parseTokens (ts.map (Located.mapLine f)) =
      ((parseTokens ts).map (Parsed.mapLine f)).mapError (Located.mapLine f) :=
  parseInside_mapLine f [] [] ts

namespace Code

theorem render_eq (code : Code) : code.render = spell (code.tokens.map Located.val) := by
  rw [render, toList_flatten]

theorem render_mapLine (f : Nat → Nat) (code : Code) : (code.mapLine f).render = code.render := by
  have same : Located.val ∘ Located.mapLine f = (Located.val : Located Token → Token) := rfl
  rw [render_eq, render_eq, tokens_mapLine, List.map_map, same]

/-- Code that is the same up to lines is rendered alike. -/
theorem render_eq_of_unlined_eq {a b : Code} (h : a.unlined = b.unlined) :
    a.render = b.render := by
  rw [← render_mapLine (fun _ => 0) a, ← render_mapLine (fun _ => 0) b]
  exact congrArg render h

/-- Tokens that are those of some code up to lines are parsed to that code, up to lines. -/
theorem parseTokens_of_val_eq {code : Code} {ts : List (Located Token)}
    (h : ts.map Located.val = code.tokens.map Located.val) :
    ∃ read, parseTokens ts = .ok ⟨read, []⟩ ∧ read.unlined = code.unlined := by
  -- With all lines forgotten the two lists of tokens are equal, and one of them is known to parse.
  have forget : ∀ xs : List (Located Token),
      xs.map (Located.mapLine fun _ => 0) = (xs.map Located.val).map fun t => ⟨0, t⟩ := by
    intro xs
    rw [List.map_map]
    rfl
  have unlined : ts.map (Located.mapLine fun _ => 0) = code.unlined.tokens := by
    rw [unlined, tokens_mapLine, forget, forget, h]
  have parsed := parseTokens_mapLine (fun _ => 0) ts
  rw [unlined, parseTokens_tokens] at parsed
  cases found : parseTokens ts with
  | error e => rw [found] at parsed; cases parsed
  | ok p =>
    obtain ⟨read, ignored⟩ := p
    rw [found] at parsed
    injection parsed with parsed
    injection parsed with program none_left
    have empty : ignored = [] := List.map_eq_nil_iff.1 none_left.symm
    exact ⟨read, by rw [empty], program.symm⟩

end Code

end FalseLang
