import FalseLang.Program
import FalseLang.Proofs.Code.Tokens

/-
  Brackets: what parsing makes of tokens whose brackets need not match.

  Which closing bracket closes nothing is said by counting: it is the first one
  up to which more quotations are closed than opened. `beforeStray` are the
  tokens before it and `behindStray` those behind it. `parse_keeps_tokens` states
  that parsing loses, invents and reorders nothing: the tokens of the program are
  the tokens before the stray bracket, followed by as many closing brackets as
  those leave quotations open, and a warning is given exactly if a token stands
  behind the stray bracket.

  The parser keeps its work in reversed lists, one for each open quotation;
  `openTokens` are the tokens that such lists hold, and `parseInside_tokens` is
  the invariant: what was read, then what is read from here on, then the brackets
  that are missing.
-/

namespace FalseLang

/-! ## Counting brackets -/

/-- How often a token occurs, on any line. -/
def countOf (t : Token) (ts : List (Located Token)) : Nat := (ts.map Located.val).count t

/-- Whether tokens inside `depth` open quotations close more of them than there are. -/
def overcloses (depth : Nat) (ts : List (Located Token)) : Bool :=
  depth + countOf .opening ts < countOf .closing ts

/-- How many quotations are open behind tokens inside `depth` open ones. -/
def leftOpen (depth : Nat) (ts : List (Located Token)) : Nat :=
  depth + countOf .opening ts - countOf .closing ts

/-- The position of the first closing bracket that closes nothing. -/
def strayFrom (depth : Nat) (ts : List (Located Token)) : Option Nat :=
  (List.range ts.length).find? fun n => overcloses depth (ts.take (n + 1))

/-- The tokens before the first closing bracket that closes nothing, or all. -/
def beforeStray (depth : Nat) (ts : List (Located Token)) : List (Located Token) :=
  match strayFrom depth ts with
  | some n => ts.take n
  | none => ts

/-- The tokens behind the first closing bracket that closes nothing, or none. -/
def behindStray (depth : Nat) (ts : List (Located Token)) : List (Located Token) :=
  match strayFrom depth ts with
  | some n => ts.drop (n + 1)
  | none => []

theorem countOf_cons (b : Token) (t : Located Token) (ts : List (Located Token)) :
    countOf b (t :: ts) = countOf b [t] + countOf b ts := by
  simp [countOf, List.count_cons]
  omega

/-- A token inside `depth` open quotations that leaves `next` of them open. -/
def Passes (depth : Nat) (t : Located Token) (next : Nat) : Prop :=
  overcloses depth [t] = false ∧ leftOpen depth [t] = next

theorem passes_op (depth line : Nat) (o : Op) : Passes depth ⟨line, .op o⟩ depth := by
  simp [Passes, overcloses, leftOpen, countOf]

theorem passes_opening (depth line : Nat) : Passes depth ⟨line, .opening⟩ (depth + 1) := by
  simp [Passes, overcloses, leftOpen, countOf]

theorem passes_closing (depth line : Nat) : Passes (depth + 1) ⟨line, .closing⟩ depth := by
  simp [Passes, overcloses, leftOpen, countOf]

section
variable {depth next : Nat} {t : Located Token} (h : Passes depth t next)
include h

theorem leftOpen_cons (ts : List (Located Token)) :
    leftOpen depth (t :: ts) = leftOpen next ts := by
  obtain ⟨inside, rfl⟩ := h
  -- Without this the subtraction in the depth behind the token could be cut off at zero.
  simp only [overcloses, decide_eq_false_iff_not] at inside
  simp only [leftOpen]
  rw [countOf_cons .opening t ts, countOf_cons .closing t ts]
  omega

theorem overcloses_cons (ts : List (Located Token)) :
    overcloses depth (t :: ts) = overcloses next ts := by
  obtain ⟨inside, rfl⟩ := h
  simp only [overcloses, decide_eq_false_iff_not] at inside
  apply decide_eq_decide.2
  rw [leftOpen, countOf_cons .opening t ts, countOf_cons .closing t ts]
  omega

/-- Behind a token that is no stray bracket, the stray bracket is looked for in the rest. -/
theorem strayFrom_cons (rest : List (Located Token)) :
    strayFrom depth (t :: rest) = (strayFrom next rest).map Nat.succ := by
  have shift : (fun n => overcloses depth (t :: rest.take n)) ∘ Nat.succ =
      fun n => overcloses next (rest.take (n + 1)) := by
    funext n
    exact overcloses_cons h (rest.take (n + 1))
  simp only [strayFrom, List.length_cons, List.range_succ_eq_map, List.find?_cons,
    List.take_succ_cons, List.take_zero, List.find?_map, h.1, shift]

theorem beforeStray_cons (rest : List (Located Token)) :
    beforeStray depth (t :: rest) = t :: beforeStray next rest := by
  unfold beforeStray
  rw [strayFrom_cons h]
  cases strayFrom next rest <;> rfl

theorem behindStray_cons (rest : List (Located Token)) :
    behindStray depth (t :: rest) = behindStray next rest := by
  unfold behindStray
  rw [strayFrom_cons h]
  cases strayFrom next rest <;> rfl

end

/-- Outside all quotations a closing bracket is a stray one. -/
theorem strayFrom_closing (line : Nat) (rest : List (Located Token)) :
    strayFrom 0 (⟨line, .closing⟩ :: rest) = some 0 := by
  simp [strayFrom, List.range_succ_eq_map, overcloses, countOf]

theorem mem_of_mem_beforeStray {depth : Nat} {ts : List (Located Token)} {t : Located Token}
    (h : t ∈ beforeStray depth ts) : t ∈ ts := by
  unfold beforeStray at h
  split at h
  · exact List.mem_of_mem_take h
  · exact h

/-! ## The tokens that the parser holds -/

/-- A token; the line of a closing bracket is forgotten. -/
def unlineClosing (t : Located Token) : Located Token :=
  if t.val = .closing then ⟨0, .closing⟩ else t

/-- The tokens that were read for the open quotations and what stands before and in them. -/
def openTokens (current : List Instruction) : List Unclosed → List (Located Token)
  | [] => Code.tokens current.reverse
  | u :: outer => openTokens u.before outer ++ ⟨u.line, .opening⟩ :: Code.tokens current.reverse

theorem openTokens_cons (i : Instruction) (current : List Instruction)
    (unclosed : List Unclosed) :
    openTokens (i :: current) unclosed = openTokens current unclosed ++ i.tokens := by
  cases unclosed <;> simp [openTokens, Code.tokens]

theorem openTokens_open (line : Nat) (current : List Instruction) (unclosed : List Unclosed) :
    openTokens [] (⟨line, current⟩ :: unclosed) =
      openTokens current unclosed ++ [⟨line, .opening⟩] := by
  simp [openTokens, Code.tokens]

theorem openTokens_close (current : List Instruction) (u : Unclosed) (outer : List Unclosed) :
    openTokens (.quotation u.line current.reverse :: u.before) outer =
      openTokens current (u :: outer) ++ [⟨u.line, .closing⟩] := by
  rw [openTokens_cons]
  simp [openTokens, Instruction.tokens]

/-- Closing all open quotations adds one bracket for each. -/
theorem tokens_closeAll (current : List Instruction) (unclosed : List Unclosed) :
    (closeAll current unclosed).tokens.map unlineClosing =
      (openTokens current unclosed).map unlineClosing ++
        List.replicate unclosed.length ⟨0, .closing⟩ := by
  induction unclosed generalizing current with
  | nil => simp [closeAll, openTokens]
  | cons u outer ih =>
    rw [closeAll, ih, openTokens_close, List.length_cons, List.replicate_succ]
    simp [unlineClosing]

/-! ## Parsing keeps all tokens -/

/-- The invariant of parsing: the tokens of the program are those read already, those
before the stray bracket, and the closing brackets that are missing. -/
theorem parseInside_tokens {current : List Instruction} {unclosed : List Unclosed}
    {ts : List (Located Token)} {parsed : Parsed}
    (h : parseInside current unclosed ts = .ok parsed) :
    parsed.program.tokens.map unlineClosing =
        (openTokens current unclosed ++ beforeStray unclosed.length ts).map unlineClosing ++
          List.replicate (leftOpen unclosed.length (beforeStray unclosed.length ts))
            ⟨0, .closing⟩ ∧
      parsed.ignored = behindStray unclosed.length ts := by
  fun_induction parseInside current unclosed ts with
  | case1 current unclosed =>
    injection h with h
    subst h
    refine ⟨?_, rfl⟩
    show (closeAll current unclosed).tokens.map unlineClosing = _
    rw [tokens_closeAll, show beforeStray unclosed.length [] = [] from rfl, List.append_nil]
    rfl
  | case2 current unclosed line o rest ih =>
    have pass := passes_op unclosed.length line o
    obtain ⟨kept, ignored⟩ := ih h
    rw [openTokens_cons] at kept
    rw [beforeStray_cons pass, behindStray_cons pass, leftOpen_cons pass]
    exact ⟨by simpa [Instruction.tokens] using kept, ignored⟩
  | case3 current unclosed line rest ih =>
    have pass := passes_opening unclosed.length line
    obtain ⟨kept, ignored⟩ := ih h
    rw [openTokens_open, List.length_cons] at kept
    rw [beforeStray_cons pass, behindStray_cons pass, leftOpen_cons pass]
    exact ⟨by simpa using kept, ignored⟩
  | case4 current line rest =>
    -- The stray bracket itself is in neither part.
    injection h with h
    subst h
    have before : beforeStray 0 (⟨line, .closing⟩ :: rest) = [] := by
      rw [beforeStray, strayFrom_closing]; rfl
    have behind : behindStray 0 (⟨line, .closing⟩ :: rest) = rest := by
      rw [behindStray, strayFrom_closing]; rfl
    rw [List.length_nil, before, behind]
    exact ⟨by simp [openTokens, leftOpen, countOf], rfl⟩
  | case5 current line rest u outer ih =>
    have pass := passes_closing outer.length line
    obtain ⟨kept, ignored⟩ := ih h
    rw [openTokens_close] at kept
    rw [List.length_cons, beforeStray_cons pass, behindStray_cons pass, leftOpen_cons pass]
    -- The bracket that was read and the one of the quotation differ at most in their lines.
    exact ⟨by simpa [unlineClosing] using kept, ignored⟩
  | case6 current unclosed line rest => cases h
  | case7 current unclosed line rest => cases h

theorem parseTokens_spec {ts : List (Located Token)} {parsed : Parsed}
    (h : parseTokens ts = .ok parsed) :
    parsed.program.tokens.map unlineClosing =
        (beforeStray 0 ts).map unlineClosing ++
          List.replicate (leftOpen 0 (beforeStray 0 ts)) ⟨0, .closing⟩ ∧
      parsed.ignored = behindStray 0 ts := by
  simpa [openTokens, Code.tokens] using parseInside_tokens h

theorem parse_of_tokenize {source : String} {ts : List (Located Token)}
    (h : tokenize source = .ok ts) : parse source = (parseTokens ts).map Parsed.program := by
  rw [parse, h]
  show (do let parsed ← parseTokens ts; return parsed.program) = _
  cases parseTokens ts <;> rfl

/-- A source that is accepted has tokens, and they parse to its program. -/
theorem parse_eq_ok {source : String} {code : Code} (h : parse source = .ok code) :
    ∃ ts parsed, tokenize source = .ok ts ∧ parseTokens ts = .ok parsed ∧
      parsed.program = code := by
  cases tokens : tokenize source with
  | error e => rw [parse, tokens] at h; cases h
  | ok ts =>
    rw [parse_of_tokenize tokens] at h
    cases found : parseTokens ts with
    | error e => rw [found] at h; cases h
    | ok parsed =>
      rw [found] at h
      injection h with h
      exact ⟨ts, parsed, rfl, found, h⟩

/-- Every token of a program but the closing brackets, which may have been added, stands among
the tokens of its source. -/
theorem mem_of_mem_tokens {ts : List (Located Token)} {parsed : Parsed}
    (h : parseTokens ts = .ok parsed) {t : Located Token} (other : t.val ≠ .closing)
    (mem : t ∈ parsed.program.tokens) : t ∈ ts := by
  have kept : unlineClosing t ∈ parsed.program.tokens.map unlineClosing :=
    List.mem_map_of_mem mem
  have same : unlineClosing t = t := if_neg other
  rw [(parseTokens_spec h).1, List.mem_append, same] at kept
  rcases kept with kept | added
  · obtain ⟨u, before, eq⟩ := List.mem_map.1 kept
    have found : u = t := by
      unfold unlineClosing at eq
      split at eq
      · rw [← eq] at other
        exact absurd rfl other
      · exact eq
    rw [← found]
    exact mem_of_mem_beforeStray before
  · rw [List.eq_of_mem_replicate added] at other
    exact absurd rfl other

/-- The line that a warning of a stray bracket is given on. -/
def Event.strayLine? : Event → Option Nat
  | .endedEarly line => some line
  | _ => none

theorem readingEvents_strayLine {source : String} {ts : List (Located Token)} {parsed : Parsed}
    (tokens : tokenize source = .ok ts) (found : parseTokens ts = .ok parsed) :
    (readingEvents source).filterMap Event.strayLine? =
      (parsed.ignored.head?.map Located.line).toList := by
  have skipped : ((unknownChars source).map fun x => Event.skipped x.line x.val).filterMap
      Event.strayLine? = [] := by
    rw [List.filterMap_eq_nil_iff]
    intro e mem
    obtain ⟨x, _, rfl⟩ := List.mem_map.1 mem
    rfl
  simp only [readingEvents, tokens, found, List.filterMap_append, skipped]
  cases parsed.ignored.head? <;> rfl

/-- **Parsing loses, invents and reorders nothing.** The tokens of an accepted program
are those of its source before the stray bracket, followed by the closing brackets that
these leave missing, and the warning of a stray bracket has the line of the token behind
it, if there is one. -/
theorem parse_keeps_tokens {source : String} {code : Code} (h : parse source = .ok code) :
    ∃ ts, tokenize source = .ok ts ∧
      code.tokens.map unlineClosing =
        (beforeStray 0 ts).map unlineClosing ++
          List.replicate (leftOpen 0 (beforeStray 0 ts)) ⟨0, .closing⟩ ∧
      (readingEvents source).filterMap Event.strayLine? =
        ((behindStray 0 ts).head?.map Located.line).toList := by
  obtain ⟨ts, parsed, tokens, found, rfl⟩ := parse_eq_ok h
  obtain ⟨kept, ignored⟩ := parseTokens_spec found
  exact ⟨ts, tokens, kept, by rw [readingEvents_strayLine tokens found, ignored]⟩

/-- A stray bracket behind nested quotations, with a token on the next line. -/
theorem parse_keeps_tokens_stray :
    parse "[1 [2]]]\n3" =
        .ok [.quotation 1 [.op 1 (.integer 1), .quotation 1 [.op 1 (.integer 2)]]] ∧
      ∃ ts, tokenize "[1 [2]]]\n3" = .ok ts ∧
        (Code.tokens [.quotation 1 [.op 1 (.integer 1),
            .quotation 1 [.op 1 (.integer 2)]]]).map unlineClosing =
          (beforeStray 0 ts).map unlineClosing ++
            List.replicate (leftOpen 0 (beforeStray 0 ts)) ⟨0, .closing⟩ ∧
        (readingEvents "[1 [2]]]\n3").filterMap Event.strayLine? =
          ((behindStray 0 ts).head?.map Located.line).toList :=
  ⟨by with_unfolding_all rfl, parse_keeps_tokens (by with_unfolding_all rfl)⟩

end FalseLang
