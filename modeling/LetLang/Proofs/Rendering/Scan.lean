import LetLang.Token.Lexer

/-!
# Scanning a text piece by piece

The tokens of a text are found from left to right, so a statement about them can
be proved from left to right: what has to hold of the tokens of a whole text
becomes, after its first lexeme, what has to hold of the tokens of the remaining
text.  Where a lexeme could be longer than intended, the statement asks what
comes behind it.
-/

namespace LetLang

/-- From every place on, the text in front of `rest` is cut into tokens with the
property `Q`, and the scan goes on with `rest`. -/
def ScansAs (text rest : List Char) (Q : List Token → Prop) : Prop :=
  ∀ p, ∃ ts, Q ts ∧ scan 0 p (text ++ rest) = ts ++ scan 0 (p.afterAll text) rest

/-- A word or a number before this text ends where the text starts. -/
def Separated (text : List Char) : Prop :=
  ∀ c ∈ text.head?, isWordChar c = false

theorem separated_nil : Separated [] := by
  simp [Separated]

theorem separated_cons {c : Char} (hc : isWordChar c = false) (text : List Char) :
    Separated (c :: text) := by
  simpa [Separated] using hc

theorem isWordChar_of_isWordStart {c : Char} (h : isWordStart c = true) :
    isWordChar c = true := by
  simp only [isWordStart, isWordChar, Char.isAlphanum, Bool.or_eq_true] at h ⊢
  exact h.imp_left Or.inl

theorem isWordChar_of_isDigit {c : Char} (h : c.isDigit = true) : isWordChar c = true := by
  simp [isWordChar, Char.isAlphanum, h]

theorem isBlank_of_isWordChar {c : Char} (h : isWordChar c = true) : isBlank c = false := by
  cases hblank : isBlank c with
  | false => rfl
  | true =>
      simp only [isBlank, Bool.or_eq_true, beq_iff_eq] at hblank
      obtain (((rfl | rfl) | rfl) | rfl) | rfl := hblank
      all_goals exact absurd h (by decide)

theorem not_isAlpha_of_isDigit {c : Char} (h : c.isDigit = true) : ¬c.isAlpha = true := by
  have hle : c.val ≤ '9'.val := of_decide_eq_true (Bool.and_eq_true_iff.mp h).2
  intro halpha
  have hcase : c.isUpper = true ∨ c.isLower = true := Bool.or_eq_true_iff.mp halpha
  rcases hcase with hupper | hlower
  · have hge : 'A'.val ≤ c.val := (of_decide_eq_true hupper).1
    exact absurd (UInt32.le_trans hge hle) (by decide)
  · have hge : 'a'.val ≤ c.val := of_decide_eq_true (Bool.and_eq_true_iff.mp hlower).1
    exact absurd (UInt32.le_trans hge hle) (by decide)

theorem isWordStart_of_isDigit {c : Char} (h : c.isDigit = true) : isWordStart c = false := by
  have hunderscore : c ≠ '_' := by
    rintro rfl
    exact absurd h (by decide)
  simp [isWordStart, not_isAlpha_of_isDigit h, hunderscore]

theorem isBlank_of_symbol? {c : Char} {kind : TokenKind} (h : Lexeme.symbol? c = some kind) :
    isBlank c = false ∧ isWordStart c = false ∧ c.isDigit = false := by
  unfold Lexeme.symbol? at h
  split at h
  case h_15 => cases h
  all_goals decide

theorem takeWhile_append_of_separated
    {q : Char → Bool} {word rest : List Char} (hword : ∀ c ∈ word, q c = true)
    (hrest : ∀ c ∈ rest.head?, q c = false) :
    (word ++ rest).takeWhile q = word := by
  rw [List.takeWhile_append_of_pos hword]
  cases rest with
  | nil => simp
  | cons c rest => simp [hrest c rfl]

namespace ScansAs

variable {text rest : List Char} {Q : List Token → Prop}

theorem nil (h : Q []) : ScansAs [] rest Q := by
  intro p
  exact ⟨[], h, rfl⟩

theorem mono
    {P : List Token → Prop} (h : ScansAs text rest P) (hPQ : ∀ ts, P ts → Q ts) :
    ScansAs text rest Q := by
  intro p
  obtain ⟨ts, hts, hscan⟩ := h p
  exact ⟨ts, hPQ ts hts, hscan⟩

theorem append
    {first : List Char} {P : List Token → Prop}
    (hfirst : ScansAs first (text ++ rest) P)
    (htext : ScansAs text rest fun us => ∀ ts, P ts → Q (ts ++ us)) :
    ScansAs (first ++ text) rest Q := by
  intro p
  obtain ⟨ts, hts, hscan⟩ := hfirst p
  obtain ⟨us, hus, hscan'⟩ := htext (p.afterAll first)
  refine ⟨ts ++ us, hus ts hts, ?_⟩
  rw [List.append_assoc, hscan, hscan', Position.afterAll_append, List.append_assoc]

theorem blank (h : ScansAs text rest Q) : ScansAs (' ' :: text) rest Q := by
  intro p
  obtain ⟨ts, hts, hscan⟩ := h (p.after ' ')
  refine ⟨ts, hts, ?_⟩
  rw [Position.afterAll_cons, ← hscan]
  rfl

/-- A lexeme that is found at the start of the text becomes its first token. -/
theorem lexeme
    {kind : TokenKind} {c : Char} {tail : List Char} (hc : isBlank c = false)
    (hfirst : Lexeme.first c (tail ++ (text ++ rest)) = ⟨kind, c, tail⟩)
    (h : ScansAs text rest fun us =>
      ∀ t : Token, t.kind = kind → t.literal = String.ofList (c :: tail) → Q (t :: us)) :
    ScansAs (c :: (tail ++ text)) rest Q := by
  intro p
  obtain ⟨us, hus, hscan⟩ := h ((p.after c).afterAll tail)
  refine ⟨⟨kind, String.ofList (c :: tail), p⟩ :: us, hus _ rfl rfl, ?_⟩
  rw [List.cons_append, List.append_assoc, scan, hc]
  simp only [Bool.false_eq_true, if_false, hfirst, scan_length_append, hscan]
  simp [Lexeme.literal]

theorem word
    {c : Char} {tail : List Char} (hc : isWordStart c = true)
    (htail : ∀ d ∈ tail, isWordChar d = true) (hrest : Separated (text ++ rest))
    (h : ScansAs text rest fun us =>
      ∀ t : Token, t.kind = .ofWord (String.ofList (c :: tail)) →
        t.literal = String.ofList (c :: tail) → Q (t :: us)) :
    ScansAs (c :: (tail ++ text)) rest Q := by
  refine lexeme (isBlank_of_isWordChar (isWordChar_of_isWordStart hc)) ?_ h
  simp only [Lexeme.first, hc, if_true, takeWhile_append_of_separated htail hrest]

theorem number
    {c : Char} {tail : List Char} (hc : c.isDigit = true)
    (htail : ∀ d ∈ tail, d.isDigit = true) (hrest : Separated (text ++ rest))
    (h : ScansAs text rest fun us =>
      ∀ t : Token, t.kind = .int → t.literal = String.ofList (c :: tail) → Q (t :: us)) :
    ScansAs (c :: (tail ++ text)) rest Q := by
  have hdigits : ∀ d ∈ (text ++ rest).head?, d.isDigit = false := by
    intro d hd
    have hword := hrest d hd
    cases hdigit : d.isDigit with
    | false => rfl
    | true => exact absurd (isWordChar_of_isDigit hdigit) (by simp [hword])
  refine lexeme (isBlank_of_isWordChar (isWordChar_of_isDigit hc)) ?_ h
  simp only [Lexeme.first, isWordStart_of_isDigit hc, hc, Bool.false_eq_true, if_false,
    if_true, takeWhile_append_of_separated htail hdigits]

theorem symbol
    {kind : TokenKind} {c : Char} (hc : Lexeme.symbol? c = some kind)
    (hrest : c = '=' ∨ c = '!' → (text ++ rest).head? ≠ some '=')
    (h : ScansAs text rest fun us => ∀ t : Token, t.kind = kind → Q (t :: us)) :
    ScansAs (c :: text) rest Q := by
  obtain ⟨hblank, hword, hdigit⟩ := isBlank_of_symbol? hc
  have heq : ¬(c = '=' ∧ (text ++ rest).head? = some '=') :=
    fun ⟨hc, hhead⟩ => hrest (.inl hc) hhead
  have hne : ¬(c = '!' ∧ (text ++ rest).head? = some '=') :=
    fun ⟨hc, hhead⟩ => hrest (.inr hc) hhead
  have hfirst : Lexeme.first c ([] ++ (text ++ rest)) = ⟨kind, c, []⟩ := by
    simp only [Lexeme.first, List.nil_append, hword, hdigit, heq, hne, hc,
      Bool.false_eq_true, if_false, Option.getD_some]
  change ScansAs (c :: (([] : List Char) ++ text)) rest Q
  exact lexeme hblank hfirst (h.mono fun us hus t ht _ => hus t ht)

theorem symbol_of_ne
    {kind : TokenKind} {c : Char} (hc : Lexeme.symbol? c = some kind)
    (heq : kind ≠ .assign) (hne : kind ≠ .bang)
    (h : ScansAs text rest fun us => ∀ t : Token, t.kind = kind → Q (t :: us)) :
    ScansAs (c :: text) rest Q := by
  refine symbol hc ?_ h
  rintro (rfl | rfl)
  · exact absurd (Option.some.inj hc).symm heq
  · exact absurd (Option.some.inj hc).symm hne

end ScansAs

end LetLang
