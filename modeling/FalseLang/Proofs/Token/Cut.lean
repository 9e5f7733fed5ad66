import FalseLang.Token.Read

/-
  Cuts: the ways in which a lexeme comes off the front of a text.

  `Cut text l rest` lists them, one for each kind of lexeme: what the text looks
  like, which lexeme is cut off and what is left behind. Every text that is not
  empty has a cut (`exists_cut`), and it is the one that `Lexeme.next` makes
  (`Cut.next_eq`, `cut_next`). So a property of lexemes is shown by going through
  the cuts, without looking into `next`.
-/

namespace FalseLang

/-- What may follow an integer: no digit, and not the sign. -/
def Stops (rest : List Char) : Prop := ∀ c ∈ rest.head?, c.isDigit = false ∧ c ≠ '_'

/-- A character that is a lexeme of its own, whatever follows it. -/
def isPlain (c : Char) : Bool :=
  !(c.isDigit || c == '\'' || c == '"' || c == '\x7b' || c == '\n' || isBlank c)

/-- A text, the lexeme that is cut off its front, and what is left of it. -/
inductive Cut : List Char → Lexeme → List Char → Prop where
  | signed {c : Char} {cs : List Char} (digit : c.isDigit = true)
    (digits : ∀ d ∈ cs, d.isDigit = true) (rest : List Char) :
    Cut (c :: (cs ++ '_' :: rest)) (.integer (c :: cs) true) rest
  | unsigned {c : Char} {cs : List Char} (digit : c.isDigit = true)
    (digits : ∀ d ∈ cs, d.isDigit = true) {rest : List Char} (stops : Stops rest) :
    Cut (c :: (cs ++ rest)) (.integer (c :: cs) false) rest
  | character (c : Char) (rest : List Char) : Cut ('\'' :: c :: rest) (.character c) rest
  | danglingQuote : Cut ['\''] .danglingQuote []
  | string {text : List Char} (inside : '"' ∉ text) (rest : List Char) :
    Cut ('"' :: (text ++ '"' :: rest)) (.string text) rest
  | unterminatedString {text : List Char} (inside : '"' ∉ text) :
    Cut ('"' :: text) (.unterminatedString text) []
  | comment {text : List Char} (inside : '\x7d' ∉ text) (rest : List Char) :
    Cut ('\x7b' :: (text ++ '\x7d' :: rest)) (.comment text true) rest
  | openComment {text : List Char} (inside : '\x7d' ∉ text) :
    Cut ('\x7b' :: text) (.comment text false) []
  | newline (rest : List Char) : Cut ('\n' :: rest) .newline rest
  | blanks {c : Char} {cs : List Char} (blank : isBlank c = true)
    (blanks : ∀ d ∈ cs, isBlank d = true) {rest : List Char}
    (ends : ∀ d ∈ rest.head?, isBlank d = false) : Cut (c :: (cs ++ rest)) (.blanks (c :: cs)) rest
  | single {c : Char} (plain : isPlain c = true) (rest : List Char) :
    Cut (c :: rest) (.single c) rest

/-! ## Characters that stand for themselves -/

theorem Letter.token_toChar (name : Letter) :
    isPlain name.toChar = true ∧ Token.ofChar? name.toChar = some (.op (.letter name)) := by
  obtain ⟨i⟩ := name
  revert i
  decide

theorem Primitive.token_symbol (p : Primitive) :
    isPlain p.symbol = true ∧ Token.ofChar? p.symbol = some (.op (.primitive p)) := by
  cases p <;> decide

/-! ## A cut is the one that is made -/

/-- The first part of a text ends where the characters looked for do. -/
theorem span_eq {p : Char → Bool} {inside rest : List Char} (all : ∀ c ∈ inside, p c = true)
    (ends : ∀ c ∈ rest.head?, p c = false) :
    (inside ++ rest).takeWhile p = inside ∧ (inside ++ rest).dropWhile p = rest := by
  rw [List.takeWhile_append_of_pos all, List.dropWhile_append_of_pos all]
  cases rest with
  | nil => simp
  | cons c after => simp [ends c rfl]

/-- Every text has such a first part. -/
theorem exists_span (p : Char → Bool) (text : List Char) :
    ∃ inside rest, text = inside ++ rest ∧ (∀ c ∈ inside, p c = true) ∧
      ∀ c ∈ rest.head?, p c = false := by
  refine ⟨text.takeWhile p, text.dropWhile p, List.takeWhile_append_dropWhile.symm, ?_, ?_⟩
  · exact fun c mem => List.all_eq_true.1 List.all_takeWhile c mem
  · intro c mem
    have stops := List.head?_dropWhile_not p text
    rw [mem] at stops
    simpa using stops

/-- The sign ends an integer, whatever follows it. -/
theorem nextInteger_signed {cs : List Char} (digits : ∀ d ∈ cs, d.isDigit = true) (c : Char)
    (rest : List Char) :
    Lexeme.nextInteger c (cs ++ '_' :: rest) = (.integer (c :: cs) true, rest) := by
  have sign : ∀ d ∈ ('_' :: rest).head?, d.isDigit = false := by simp
  obtain ⟨inside, behind⟩ := span_eq digits sign
  rw [Lexeme.nextInteger, inside, behind]
  rfl

theorem nextInteger_unsigned {cs : List Char} (digits : ∀ d ∈ cs, d.isDigit = true) (c : Char)
    {rest : List Char} (stops : Stops rest) :
    Lexeme.nextInteger c (cs ++ rest) = (.integer (c :: cs) false, rest) := by
  obtain ⟨inside, behind⟩ := span_eq digits fun d mem => (stops d mem).1
  rw [Lexeme.nextInteger, inside, behind]
  split
  · -- What follows is no sign.
    exact absurd rfl (stops '_' rfl).2
  · rfl

theorem all_bne_of_not_mem {d : Char} {text : List Char} (h : d ∉ text) :
    ∀ c ∈ text, (c != d) = true := by
  intro c mem
  rw [bne_iff_ne]
  rintro rfl
  exact h mem

/-- A text without the character `d`, and then `d` or the end. -/
theorem span_delimiter {d : Char} {text : List Char} (inside : d ∉ text) (rest : List Char)
    (ends : ∀ c ∈ rest.head?, c = d) :
    (text ++ rest).takeWhile (· != d) = text ∧ (text ++ rest).dropWhile (· != d) = rest := by
  refine span_eq (all_bne_of_not_mem inside) (fun c mem => ?_)
  rw [ends c mem]
  simp

theorem nextString_closed {text : List Char} (inside : '"' ∉ text) (rest : List Char) :
    Lexeme.nextString (text ++ '"' :: rest) = (.string text, rest) := by
  obtain ⟨before, behind⟩ := span_delimiter inside ('"' :: rest) (by simp)
  rw [Lexeme.nextString, before, behind]

theorem nextString_open {text : List Char} (inside : '"' ∉ text) :
    Lexeme.nextString text = (.unterminatedString text, []) := by
  obtain ⟨_, behind⟩ := span_delimiter inside [] (by simp)
  rw [List.append_nil] at behind
  rw [Lexeme.nextString, behind]

theorem nextComment_closed {text : List Char} (inside : '\x7d' ∉ text) (rest : List Char) :
    Lexeme.nextComment (text ++ '\x7d' :: rest) = (.comment text true, rest) := by
  obtain ⟨before, behind⟩ := span_delimiter inside ('\x7d' :: rest) (by simp)
  rw [Lexeme.nextComment, before, behind]

theorem nextComment_open {text : List Char} (inside : '\x7d' ∉ text) :
    Lexeme.nextComment text = (.comment text false, []) := by
  obtain ⟨_, behind⟩ := span_delimiter inside [] (by simp)
  rw [List.append_nil] at behind
  rw [Lexeme.nextComment, behind]

theorem next_blank {c : Char} (h : isBlank c = true) (rest : List Char) :
    Lexeme.next c rest = (.blanks (c :: rest.takeWhile isBlank), rest.dropWhile isBlank) := by
  simp only [isBlank, Bool.or_eq_true, beq_iff_eq] at h
  rcases h with ((rfl | rfl) | rfl) | rfl <;> rfl

theorem next_plain {c : Char} (plain : isPlain c = true) (rest : List Char) :
    Lexeme.next c rest = (.single c, rest) := by
  simp only [isPlain, Bool.not_eq_true', Bool.or_eq_false_iff, beq_eq_false_iff_ne] at plain
  obtain ⟨⟨⟨⟨⟨digit, quote⟩, string⟩, comment⟩, newline⟩, blank⟩ := plain
  simp [Lexeme.next, digit, quote, string, comment, newline, blank]

/-- `next` makes the cut that the text allows. -/
theorem Cut.next_eq {c : Char} {cs : List Char} {l : Lexeme} {rest : List Char}
    (h : Cut (c :: cs) l rest) : Lexeme.next c cs = (l, rest) := by
  cases h with
  | signed digit digits =>
    rw [Lexeme.next, if_pos digit]
    exact nextInteger_signed digits c rest
  | unsigned digit digits stops =>
    rw [Lexeme.next, if_pos digit]
    exact nextInteger_unsigned digits c stops
  | character c rest => rfl
  | danglingQuote => rfl
  | string inside => exact nextString_closed inside rest
  | unterminatedString inside => exact nextString_open inside
  | comment inside => exact nextComment_closed inside rest
  | openComment inside => exact nextComment_open inside
  | newline rest => rfl
  | blanks blank run ends =>
    obtain ⟨inside, behind⟩ := span_eq run ends
    rw [next_blank blank, inside, behind]
  | single plain rest => exact next_plain plain _

/-! ## There is always a cut -/

theorem exists_cut_digit {c : Char} (digit : c.isDigit = true) (cs : List Char) :
    ∃ l rest, Cut (c :: cs) l rest := by
  obtain ⟨digits, rest, rfl, all, ends⟩ := exists_span Char.isDigit cs
  by_cases sign : rest.head? = some '_'
  · obtain ⟨after, rfl⟩ := List.head?_eq_some_iff.1 sign
    exact ⟨_, _, .signed digit all after⟩
  · refine ⟨_, _, .unsigned digit all (fun d mem => ⟨ends d mem, ?_⟩)⟩
    rintro rfl
    exact sign mem

/-- Every text but the empty one has a cut. -/
theorem exists_cut (c : Char) (cs : List Char) : ∃ l rest, Cut (c :: cs) l rest := by
  by_cases digit : c.isDigit = true
  · exact exists_cut_digit digit cs
  by_cases quote : c = '\''
  · subst quote
    cases cs with
    | nil => exact ⟨_, _, .danglingQuote⟩
    | cons d rest => exact ⟨_, _, .character d rest⟩
  by_cases string : c = '"'
  · subst string
    by_cases closed : '"' ∈ cs
    · obtain ⟨text, rest, rfl, inside⟩ := List.eq_append_cons_of_mem closed
      exact ⟨_, _, .string inside rest⟩
    · exact ⟨_, _, .unterminatedString closed⟩
  by_cases comment : c = '\x7b'
  · subst comment
    by_cases closed : '\x7d' ∈ cs
    · obtain ⟨text, rest, rfl, inside⟩ := List.eq_append_cons_of_mem closed
      exact ⟨_, _, .comment inside rest⟩
    · exact ⟨_, _, .openComment closed⟩
  by_cases newline : c = '\n'
  · subst newline
    exact ⟨_, _, .newline cs⟩
  by_cases blank : isBlank c = true
  · obtain ⟨run, rest, rfl, all, ends⟩ := exists_span isBlank cs
    exact ⟨_, _, .blanks blank all ends⟩
  · refine ⟨_, _, .single ?_ cs⟩
    simp [isPlain, digit, quote, string, comment, newline, blank]

/-- The cut that `next` makes. -/
theorem cut_next (c : Char) (cs : List Char) :
    Cut (c :: cs) (Lexeme.next c cs).1 (Lexeme.next c cs).2 := by
  obtain ⟨l, rest, cut⟩ := exists_cut c cs
  rw [cut.next_eq]
  exact cut

/-! ## Blanks stand for nothing -/

/-- A text of characters of one kind, of which no line end is. -/
theorem count_newline_of_all {p : Char → Bool} {cs : List Char} (all : ∀ c ∈ cs, p c = true)
    (other : p '\n' = false) : cs.count '\n' = 0 := by
  rw [List.count_eq_zero]
  intro mem
  rw [all '\n' mem] at other
  cases other

theorem count_newline_of_blanks {cs : List Char} (h : ∀ c ∈ cs, isBlank c = true) :
    cs.count '\n' = 0 := count_newline_of_all h (by decide)

/-- The longest run of blanks that begins a text can be left out. -/
theorem tokensFrom_longest_blanks {run rest : List Char} (all : ∀ c ∈ run, isBlank c = true)
    (ends : ∀ c ∈ rest.head?, isBlank c = false) (line : Nat) :
    tokensFrom line (lexemes (run ++ rest)) = tokensFrom line (lexemes rest) := by
  cases run with
  | nil => rfl
  | cons c cs =>
    have blank := all c List.mem_cons_self
    have others : ∀ d ∈ cs, isBlank d = true := fun d mem => all d (List.mem_cons_of_mem c mem)
    have newlines : (Lexeme.blanks (c :: cs)).newlines = 0 := count_newline_of_blanks all
    rw [List.cons_append, lexemes_cons, (Cut.blanks blank others ends).next_eq,
      tokensFrom_cons_none rfl, newlines, Nat.add_zero]

/-- Blanks before a text can be left out, also where more blanks follow them. -/
theorem tokensFrom_blanks {run : List Char} (all : ∀ c ∈ run, isBlank c = true) (line : Nat)
    (rest : List Char) :
    tokensFrom line (lexemes (run ++ rest)) = tokensFrom line (lexemes rest) := by
  obtain ⟨more, behind, rfl, blank, ends⟩ := exists_span isBlank rest
  have longer : ∀ c ∈ run ++ more, isBlank c = true := by
    intro c mem
    exact (List.mem_append.1 mem).elim (all c) (blank c)
  rw [← List.append_assoc, tokensFrom_longest_blanks longer ends,
    tokensFrom_longest_blanks blank ends]

theorem tokensFrom_blank {c : Char} (blank : isBlank c = true) (line : Nat) (rest : List Char) :
    tokensFrom line (lexemes (c :: rest)) = tokensFrom line (lexemes rest) := by
  have all : ∀ d ∈ [c], isBlank d = true := by simpa using blank
  exact tokensFrom_blanks all line rest

/-! ## Where reading stops -/

/-- The line on which what stands behind some lexemes begins, if they begin on `line`. -/
def lineBehind (line : Nat) (ls : List Lexeme) : Nat := line + (ls.flatMap Lexeme.text).count '\n'

theorem lineBehind_cons (line : Nat) (l : Lexeme) (ls : List Lexeme) :
    lineBehind line (l :: ls) = lineBehind (line + l.newlines) ls := by
  simp only [lineBehind, List.flatMap_cons, List.count_append, Lexeme.newlines]
  omega

/-- Lexemes that can all be read stand for tokens. -/
theorem exists_tokensFrom {ls : List Lexeme} (readable : ∀ l ∈ ls, ∃ m, l.token = .ok m)
    (line : Nat) : ∃ ts, tokensFrom line ls = .ok ts := by
  induction ls generalizing line with
  | nil => exact ⟨[], rfl⟩
  | cons l rest ih =>
    obtain ⟨m, token⟩ := readable l List.mem_cons_self
    obtain ⟨ts, read⟩ := ih (fun k mem => readable k (List.mem_cons_of_mem l mem))
      (line + l.newlines)
    cases m with
    | none => exact ⟨ts, by rw [tokensFrom_cons_none token, read]⟩
    | some t => exact ⟨⟨l.lineFrom line, t⟩ :: ts, by rw [tokensFrom_cons_some token, read]; rfl⟩

/-- A lexeme that can be read does not decide whether reading stops. -/
theorem tokensFrom_cons_eq_error_iff {l : Lexeme} {m : Option Token} (h : l.token = .ok m)
    {line : Nat} {rest : List Lexeme} {e : ParseError} :
    tokensFrom line (l :: rest) = .error e ↔ tokensFrom (line + l.newlines) rest = .error e := by
  cases m with
  | none => rw [tokensFrom_cons_none h]
  | some t =>
    rw [tokensFrom_cons_some h]
    cases tokensFrom (line + l.newlines) rest <;> simp [Except.map]

/-- Lexemes can be read exactly if the first one and the rest can; the first one adds at most
one token. -/
theorem tokensFrom_cons_eq_ok_iff {line : Nat} {l : Lexeme} {rest : List Lexeme}
    {ts : List (Located Token)} :
    tokensFrom line (l :: rest) = .ok ts ↔
      ∃ m us, l.token = .ok m ∧ tokensFrom (line + l.newlines) rest = .ok us ∧
        ts = (m.map fun t => ⟨l.lineFrom line, t⟩).toList ++ us := by
  cases token : l.token with
  | error d => simp [tokensFrom_cons_error token]
  | ok m =>
    cases m with
    | none => simp [tokensFrom_cons_none token]
    | some t =>
      rw [tokensFrom_cons_some token]
      cases tokensFrom (line + l.newlines) rest <;> simp [Except.map, eq_comm]

/-- Reading stops at the first lexeme that cannot be read, on its line. -/
theorem tokensFrom_eq_error_iff {line : Nat} {ls : List Lexeme} {e : ParseError} :
    tokensFrom line ls = .error e ↔
      ∃ before l after, ls = before ++ l :: after ∧ (∀ k ∈ before, ∃ m, k.token = .ok m) ∧
        l.token = .error e.val ∧ e.line = l.lineFrom (lineBehind line before) := by
  induction ls generalizing line with
  | nil => simp
  | cons l rest ih =>
    cases token : l.token with
    | error d =>
      rw [tokensFrom_cons_error token]
      constructor
      · intro stopped
        cases stopped
        exact ⟨[], l, rest, rfl, by simp, token, rfl⟩
      · rintro ⟨before, k, after, cut, readable, stops, place⟩
        obtain ⟨place', d'⟩ := e
        cases before with
        | nil =>
          cases cut
          rw [token] at stops
          cases stops
          cases place
          rfl
        | cons j before =>
          cases cut
          obtain ⟨m, read⟩ := readable l List.mem_cons_self
          rw [token] at read
          cases read
    | ok m =>
      rw [tokensFrom_cons_eq_error_iff token, ih]
      constructor
      · rintro ⟨before, k, after, rfl, readable, stops, place⟩
        refine ⟨l :: before, k, after, rfl, ?_, stops, by rw [lineBehind_cons]; exact place⟩
        intro j mem
        rcases List.mem_cons.1 mem with rfl | later
        · exact ⟨m, token⟩
        · exact readable j later
      · rintro ⟨before, k, after, cut, readable, stops, place⟩
        cases before with
        | nil =>
          cases cut
          rw [token] at stops
          cases stops
        | cons j before =>
          cases cut
          rw [lineBehind_cons] at place
          exact ⟨before, k, after, rfl, fun i mem => readable i (List.mem_cons_of_mem l mem),
            stops, place⟩

end FalseLang
