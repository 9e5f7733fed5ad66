import FalseLang.Code.Render
import FalseLang.Proofs.Token.Cut

/-
  Spelling: tokens that are written with spaces between them are read back.

  A token is read back if its text is cut off as one lexeme, whatever may follow
  it in a spelled text (`Token.readsAs_text`). Two literals cannot be read back:
  a string with a quote in it, and a character whose code is that of no
  character; `Token.Writable` leaves them out. Only integers look at what
  follows them, and in a spelled text that is a space, a closing bracket or
  nothing (`stops_spelled`). `tokenize_spell` puts the lexemes together.
-/

namespace FalseLang

/-! ## What can be written -/

/-- The code of a character, and only that, is the code of a character. -/
theorem Integer.toChar?_eq_some_iff {code : Int64} {c : Char} :
    Integer.toChar? code = some c ↔ code.toInt = c.toNat := by
  have clamp : code.toNatClampNeg = code.toInt.toNat := rfl
  unfold Integer.toChar?
  constructor
  · intro h
    split at h
    · rename_i valid
      injection h with h
      have value : c.toNat = code.toNatClampNeg := by
        rw [← h, Char.ofNat, dif_pos valid.2]
        rfl
      omega
    · cases h
  · intro h
    have nat : code.toNatClampNeg = c.toNat := by omega
    have valid : c.toNat.isValidChar := c.valid
    rw [nat, Char.ofNat_toNat, if_pos ⟨by omega, valid⟩]

theorem Integer.toInt_ofChar (c : Char) : (Integer.ofChar c).toInt = c.toNat := by
  have small : c.toNat < 0x110000 := by
    have := c.valid
    simp only [UInt32.isValidChar, Nat.isValidChar] at this
    show c.val.toNat < _
    omega
  exact Int64.toInt_ofNat_of_lt (by omega)

/-- An operation whose text stands for it: strings hold no quote, and character
literals have the code of a character. -/
def Op.Writable : Op → Prop
  | .print text => '"' ∉ text.toList
  | .character code => ∃ c : Char, code.toInt = c.toNat
  | _ => True

instance (o : Op) : Decidable o.Writable :=
  match o with
  | .print text => inferInstanceAs (Decidable ('"' ∉ text.toList))
  | .character code =>
    decidable_of_iff ((Integer.toChar? code).isSome = true) <| by
      simp only [Option.isSome_iff_exists, Integer.toChar?_eq_some_iff]
      rfl
  | .integer _ | .letter _ | .primitive _ | .execute _ | .loop | .store | .load =>
    inferInstanceAs (Decidable True)

/-- A token whose text stands for it. -/
def Token.Writable : Token → Prop
  | .op o => o.Writable
  | .opening | .closing => True
  | .danglingQuote | .unterminatedString => False

instance (t : Token) : Decidable t.Writable :=
  match t with
  | .op o => inferInstanceAs (Decidable o.Writable)
  | .opening | .closing => inferInstanceAs (Decidable True)
  | .danglingQuote | .unterminatedString => inferInstanceAs (Decidable False)

/-! ## Cutting the text of one token off -/

/-- A text that is cut off before `rest` as one lexeme, which stands for the token. -/
def ReadsAs (t : Token) (text rest : List Char) : Prop :=
  ∃ c cs l, text = c :: cs ∧ isBlank c = false ∧ Lexeme.next c (cs ++ rest) = (l, rest) ∧
    l.token = .ok (some t)

theorem readsAs_plain {c : Char} {t : Token} (plain : isPlain c = true)
    (h : Token.ofChar? c = some t) (rest : List Char) : ReadsAs t [c] rest := by
  have blank : isBlank c = false := by
    simp only [isPlain, Bool.not_eq_true', Bool.or_eq_false_iff] at plain
    exact plain.2
  exact ⟨c, [], .single c, rfl, blank, next_plain plain rest, by rw [Lexeme.token, h]⟩

theorem readsAs_letter (name : Letter) (rest : List Char) :
    ReadsAs (.op (.letter name)) [name.toChar] rest :=
  readsAs_plain name.token_toChar.1 name.token_toChar.2 rest

theorem readsAs_primitive (p : Primitive) (rest : List Char) :
    ReadsAs (.op (.primitive p)) [p.symbol] rest :=
  readsAs_plain p.token_symbol.1 p.token_symbol.2 rest

theorem readsAs_character {code : Int64} {c : Char} (h : code.toInt = c.toNat)
    (rest : List Char) : ReadsAs (.op (.character code)) ['\'', c] rest := by
  have same : Integer.ofChar c = code := by
    rw [← Int64.toInt_inj, Integer.toInt_ofChar, h]
  exact ⟨'\'', [c], .character c, rfl, rfl, rfl, by rw [Lexeme.token, same]⟩

theorem readsAs_string {text : List Char} (h : '"' ∉ text) (rest : List Char) :
    ReadsAs (.op (.print (String.ofList text))) ('"' :: (text ++ ['"'])) rest := by
  refine ⟨'"', text ++ ['"'], .string text, rfl, rfl, ?_, rfl⟩
  show Lexeme.nextString (text ++ ['"'] ++ rest) = _
  rw [List.append_assoc]
  exact nextString_closed h rest

/-- Digits, with the sign or with something behind them that is no part of a literal. -/
theorem readsAs_digits {digits : List Char} {negated : Bool} {value : Int64}
    (nonempty : digits ≠ []) (all : ∀ c ∈ digits, c.isDigit = true)
    (exact_value : value.toInt =
      if negated then -(Integer.ofDigits digits : Int) else Integer.ofDigits digits)
    {rest : List Char} (stops : Stops rest) :
    ReadsAs (.op (.integer value)) (Lexeme.text (.integer digits negated)) rest := by
  obtain ⟨c, cs, rfl⟩ := List.exists_cons_of_ne_nil nonempty
  have first : c.isDigit = true := all c List.mem_cons_self
  have others : ∀ d ∈ cs, d.isDigit = true := fun d mem => all d (List.mem_cons_of_mem c mem)
  have blank : isBlank c = false := by
    cases h : isBlank c with
    | false => rfl
    | true =>
      simp only [isBlank, Bool.or_eq_true, beq_iff_eq] at h
      rcases h with ((rfl | rfl) | rfl) | rfl <;> exact absurd first (by decide)
  have token : (Lexeme.integer (c :: cs) negated).token = .ok (some (.op (.integer value))) := by
    simp only [Lexeme.token, ← exact_value, Integer.ofInt?_toInt]
  cases negated with
  | true =>
    refine ⟨c, cs ++ ['_'], .integer (c :: cs) true, rfl, blank, ?_, token⟩
    rw [Lexeme.next, if_pos first, List.append_assoc]
    exact nextInteger_signed others c rest
  | false =>
    refine ⟨c, cs, .integer (c :: cs) false, rfl, blank, ?_, token⟩
    rw [Lexeme.next, if_pos first]
    exact nextInteger_unsigned others c stops

theorem toList_literal (value : Int64) : (Integer.literal value).toList =
    Lexeme.text (.integer (Nat.toDigits 10 value.toInt.natAbs) (decide (value.toInt < 0))) := by
  unfold Integer.literal
  by_cases negative : value.toInt < 0
  · simp [negative, Lexeme.text]
  · simp [negative, Lexeme.text]

theorem readsAs_integer (value : Int64) {rest : List Char} (stops : Stops rest) :
    ReadsAs (.op (.integer value)) (Integer.literal value).toList rest := by
  have all : ∀ c ∈ Nat.toDigits 10 value.toInt.natAbs, c.isDigit = true := fun c mem =>
    Nat.isDigit_of_mem_toDigits (by decide) (by decide) mem
  have number : Integer.ofDigits (Nat.toDigits 10 value.toInt.natAbs) = value.toInt.natAbs :=
    Nat.ofDigitChars_ten_toDigits
  rw [toList_literal]
  refine readsAs_digits Nat.toDigits_ne_nil all ?_ stops
  -- The least integer is included: its digits alone would be too large for a literal.
  rw [number]
  by_cases negative : value.toInt < 0
  · rw [if_pos (decide_eq_true negative)]
    omega
  · rw [if_neg (by simpa using negative)]
    omega

/-- The text of a token is cut off as one lexeme that stands for the token. -/
theorem Token.readsAs_text {t : Token} (h : t.Writable) {rest : List Char}
    (stops : t ≠ .opening → Stops rest) : ReadsAs t t.text.toList rest := by
  match t, h with
  | .opening, _ => exact readsAs_plain (by decide) (by decide) rest
  | .closing, _ => exact readsAs_plain (by decide) (by decide) rest
  | .op (.integer value), _ => exact readsAs_integer value (stops (by simp))
  | .op (.character code), h =>
    obtain ⟨c, eq⟩ := h
    have text : (Token.op (.character code)).text.toList = ['\'', c] := by
      simp [Token.text, Op.text, Integer.toChar?_eq_some_iff.2 eq]
    rw [text]
    exact readsAs_character eq rest
  | .op (.print text), h =>
    have reads := readsAs_string h rest
    rw [String.ofList_toList] at reads
    simpa [Token.text, Op.text] using reads
  | .op (.letter name), _ => simpa [Token.text, Op.text] using readsAs_letter name rest
  | .op (.primitive p), _ => simpa [Token.text, Op.text] using readsAs_primitive p rest
  | .op (.execute false), _ => exact readsAs_plain (by decide) (by decide) rest
  | .op (.execute true), _ => exact readsAs_plain (by decide) (by decide) rest
  | .op .loop, _ => exact readsAs_plain (by decide) (by decide) rest
  | .op .store, _ => exact readsAs_plain (by decide) (by decide) rest
  | .op .load, _ => exact readsAs_plain (by decide) (by decide) rest

/-! ## The whole text -/

/-- The characters of spelled tokens; `glued` says that the first needs no space before it. -/
def spelled (glued : Bool) : List Token → List Char
  | [] => []
  | t :: rest =>
    (if glued || t == .closing then [] else [' ']) ++
      (t.text.toList ++ spelled (t == .opening) rest)

theorem toList_spellOnto (text : String) (glued : Bool) (ts : List Token) :
    (spellOnto text glued ts).toList = text.toList ++ spelled glued ts := by
  induction ts generalizing text glued with
  | nil => simp [spellOnto, spelled]
  | cons t rest ih =>
    rw [spellOnto, ih, spelled]
    cases glued || t == .closing <;> simp

theorem toList_spell (ts : List Token) : (spell ts).toList = spelled true ts := by
  rw [spell, toList_spellOnto]
  rfl

/-- Behind a token there is a space, a closing bracket or nothing. -/
theorem stops_spelled (ts : List Token) : Stops (spelled false ts) := by
  cases ts with
  | nil =>
    intro c mem
    cases mem
  | cons t rest =>
    by_cases closing : t = .closing
    · subst closing
      intro c mem
      cases mem
      decide
    · intro c mem
      simp only [spelled, Bool.false_or, beq_eq_false_iff_ne.2 closing, Bool.false_eq_true,
        if_false] at mem
      cases mem
      decide

/-- Spelled tokens are read back, on whatever lines. -/
theorem tokensFrom_spelled {ts : List Token} (h : ∀ t ∈ ts, t.Writable) (glued : Bool)
    (line : Nat) :
    ∃ read, tokensFrom line (lexemes (spelled glued ts)) = .ok read ∧
      read.map Located.val = ts := by
  induction ts generalizing glued line with
  | nil => exact ⟨[], by simp [spelled], rfl⟩
  | cons t rest ih =>
    -- The first token is cut off before the others, and its space, if any, before it.
    have stops : t ≠ .opening → Stops (spelled (t == .opening) rest) := by
      intro other
      rw [beq_eq_false_iff_ne.2 other]
      exact stops_spelled rest
    obtain ⟨c, cs, l, text, _, cut, token⟩ :=
      Token.readsAs_text (h t List.mem_cons_self) stops
    obtain ⟨read, found, vals⟩ :=
      ih (fun u mem => h u (List.mem_cons_of_mem t mem)) (t == .opening) (line + l.newlines)
    have first : tokensFrom line
        (lexemes (t.text.toList ++ spelled (t == .opening) rest)) =
          .ok (⟨l.lineFrom line, t⟩ :: read) := by
      rw [text, List.cons_append, lexemes_cons, cut, tokensFrom_cons_some token, found]
      rfl
    refine ⟨⟨l.lineFrom line, t⟩ :: read, ?_, by rw [List.map_cons, vals]⟩
    rw [spelled]
    split
    · exact first
    · rw [text] at first ⊢
      exact (tokensFrom_blank rfl line _).trans first

/-- Tokens that are written as text are read back. -/
theorem tokenize_spell {ts : List Token} (h : ∀ t ∈ ts, t.Writable) :
    ∃ read, tokenize (spell ts) = .ok read ∧ read.map Located.val = ts := by
  rw [tokenize, toList_spell]
  exact tokensFrom_spelled h true 1

end FalseLang
