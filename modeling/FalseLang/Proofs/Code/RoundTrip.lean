import FalseLang.Proofs.Code.Brackets
import FalseLang.Proofs.Token.Spell

/-
  The round trip: rendering and parsing are inverse to each other up to lines.

  Rendered code is a list of spelled tokens, which are read back one by one
  (`tokenize_spell`) and parsed to the code they came from
  (`Code.parseTokens_of_val_eq`). That needs code that can be written
  (`Code.Writable`). Code that was parsed always can be: a string is cut off at
  the first quote, and a character literal is made from a character
  (`writable_of_tokenize`).
-/

namespace FalseLang

/-- Code in which every operation, at any level, can be written. -/
def Code.Writable (code : Code) : Prop := ∀ t ∈ code.tokens, t.val.Writable

instance (code : Code) : Decidable code.Writable :=
  inferInstanceAs (Decidable (∀ t ∈ code.tokens, t.val.Writable))

/-! ## Rendered code is read back -/

theorem Code.parse_render {code : Code} (h : code.Writable) :
    ∃ read, parse code.render = .ok read ∧ read.unlined = code.unlined := by
  have writable : ∀ t ∈ code.tokens.map Located.val, t.Writable := by
    intro t mem
    obtain ⟨x, found, rfl⟩ := List.mem_map.1 mem
    exact h x found
  obtain ⟨ts, tokens, vals⟩ := tokenize_spell writable
  obtain ⟨read, parsed, same⟩ := Code.parseTokens_of_val_eq vals
  refine ⟨read, ?_, same⟩
  rw [Code.render_eq, parse_of_tokenize tokens, parsed]
  rfl

/-! ## Code that was parsed can be written -/

/-- A string is cut off at the first quote behind its opening one. -/
theorem quote_not_mem_of_next {c : Char} {rest text : List Char}
    (h : (Lexeme.next c rest).1 = .string text) : '"' ∉ text := by
  have cut := cut_next c rest
  rw [h] at cut
  generalize (Lexeme.next c rest).2 = after at cut
  cases cut with
  | string inside => exact inside

theorem quote_not_mem_of_mem_lexemes {source text : List Char}
    (h : Lexeme.string text ∈ lexemes source) : '"' ∉ text := by
  match source with
  | [] => simp at h
  | c :: rest =>
    -- Not an induction on the text: a lexeme takes more than one character off.
    rw [lexemes_cons, List.mem_cons] at h
    rcases h with first | later
    · exact quote_not_mem_of_next first.symm
    · exact quote_not_mem_of_mem_lexemes later
termination_by source.length
decreasing_by exact Lexeme.next_length c rest

/-- A token comes from a lexeme that stands for it. -/
theorem exists_lexeme_of_mem {ls : List Lexeme} {line : Nat} {ts : List (Located Token)}
    (h : tokensFrom line ls = .ok ts) {t : Located Token} (mem : t ∈ ts) :
    ∃ l ∈ ls, l.token = .ok (some t.val) := by
  induction ls generalizing line ts with
  | nil =>
    cases h
    cases mem
  | cons l rest ih =>
    obtain ⟨m, us, token, others, rfl⟩ := tokensFrom_cons_eq_ok_iff.1 h
    rcases List.mem_append.1 mem with here | later
    · obtain ⟨u, rfl, rfl⟩ := Option.map_eq_some_iff.1 (Option.mem_toList.1 here)
      exact ⟨l, List.mem_cons_self, token⟩
    · obtain ⟨l', found, stands⟩ := ih others later
      exact ⟨l', List.mem_cons_of_mem l found, stands⟩

theorem writable_of_ofChar? {c : Char} {t : Token} (h : Token.ofChar? c = some t) :
    t.Writable := by
  unfold Token.ofChar? at h
  split at h
  · cases h; trivial
  · cases h; trivial
  · cases h; trivial
  · cases h; trivial
  · cases h; trivial
  · cases h; trivial
  · cases h; trivial
  · split at h
    · cases h; trivial
    · cases h; trivial
    · cases h

theorem writable_of_token {l : Lexeme} {o : Op} (h : l.token = .ok (some (.op o)))
    (strings : ∀ text, l = .string text → '"' ∉ text) : o.Writable := by
  cases l with
  | integer digits negated =>
    simp only [Lexeme.token] at h
    split at h <;> cases h
    trivial
  | character c =>
    cases h
    exact ⟨c, Integer.toInt_ofChar c⟩
  | string text =>
    cases h
    show '"' ∉ (String.ofList text).toList
    rw [String.toList_ofList]
    exact strings text rfl
  | single c =>
    injection h with h
    exact writable_of_ofChar? h
  | danglingQuote => cases h
  | unterminatedString text => cases h
  | comment text closed => cases h
  | newline => cases h
  | blanks run => cases h

theorem writable_of_tokenize {source : String} {ts : List (Located Token)}
    (h : tokenize source = .ok ts) {line : Nat} {o : Op} (mem : ⟨line, .op o⟩ ∈ ts) :
    o.Writable := by
  obtain ⟨l, found, stands⟩ := exists_lexeme_of_mem h mem
  apply writable_of_token stands
  rintro text rfl
  exact quote_not_mem_of_mem_lexemes found

mutual

/-- Code has no tokens of literals that break off. -/
theorem Instruction.whole_of_mem_tokens {t : Located Token} : ∀ i : Instruction, t ∈ i.tokens →
    (∃ o, t.val = .op o) ∨ t.val = .opening ∨ t.val = .closing
  | .op line o, mem => by
    rw [List.mem_singleton.1 mem]
    exact Or.inl ⟨o, rfl⟩
  | .quotation line body, mem => by
    rcases List.mem_cons.1 mem with rfl | mem
    · exact Or.inr (Or.inl rfl)
    · rcases List.mem_append.1 mem with inside | last
      · exact Code.whole_of_mem_tokens body inside
      · rw [List.mem_singleton.1 last]
        exact Or.inr (Or.inr rfl)

theorem Code.whole_of_mem_tokens {t : Located Token} : ∀ code : Code, t ∈ code.tokens →
    (∃ o, t.val = .op o) ∨ t.val = .opening ∨ t.val = .closing
  | [], mem => by cases mem
  | i :: rest, mem => by
    rcases List.mem_append.1 mem with first | later
    · exact Instruction.whole_of_mem_tokens i first
    · exact Code.whole_of_mem_tokens rest later

end

theorem Code.writable_of_parse {source : String} {code : Code} (h : parse source = .ok code) :
    code.Writable := by
  obtain ⟨ts, parsed, tokens, found, rfl⟩ := parse_eq_ok h
  intro t mem
  obtain ⟨line, val⟩ := t
  rcases Code.whole_of_mem_tokens _ mem with ⟨o, rfl⟩ | rfl | rfl
  · exact writable_of_tokenize tokens (mem_of_mem_tokens found (by simp) mem)
  · trivial
  · trivial

/-- **Rendering and parsing are inverse up to lines.** Code that can be written is read
back from its rendering; and every program can be written, so that its rendering is the
rendering of what is read back from it. -/
theorem parse_render_unlined :
    (∀ code : Code, code.Writable →
      ∃ read, parse code.render = .ok read ∧ read.unlined = code.unlined) ∧
    (∀ (source : String) (code : Code), parse source = .ok code →
      code.Writable ∧ ∃ read, parse code.render = .ok read ∧ read.render = code.render) := by
  constructor
  · intro code writable
    exact Code.parse_render writable
  · intro source code accepted
    have writable := Code.writable_of_parse accepted
    obtain ⟨read, parsed, same⟩ := Code.parse_render writable
    exact ⟨writable, read, parsed, Code.render_eq_of_unlined_eq same⟩

/-- The least integer before a negation, a quoted bracket and a string that looks like a
comment, written from code and read from a source with an open quotation. -/
theorem parse_render_unlined_literals :
    (∃ read, parse (Code.render [.op 7 (.integer (-9223372036854775808)),
          .op 7 (.primitive .negate),
          .quotation 9 [.op 2 (.character 91), .op 9 (.print "] \x7b1")]]) = .ok read ∧
        read.unlined = Code.unlined [.op 7 (.integer (-9223372036854775808)),
          .op 7 (.primitive .negate),
          .quotation 9 [.op 2 (.character 91), .op 9 (.print "] \x7b1")]]) ∧
    (Code.Writable [.quotation 1 [.op 1 (.character 34), .op 2 (.integer (-12))]] ∧
      ∃ read, parse (Code.render [.quotation 1 [.op 1 (.character 34), .op 2 (.integer (-12))]]) =
          .ok read ∧
        read.render =
          Code.render [.quotation 1 [.op 1 (.character 34), .op 2 (.integer (-12))]]) :=
  ⟨parse_render_unlined.1 _ (by decide),
    parse_render_unlined.2 "['\"\n012_" _ (by with_unfolding_all rfl)⟩

end FalseLang
