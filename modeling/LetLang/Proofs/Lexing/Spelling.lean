import LetLang.Proofs.Lexing.Blanks
import LetLang.Proofs.Rendering.Canonical
import Mathlib.Data.List.TakeWhile

/-!
# The texts of tokens

Which texts are tokens, and of which kind, said by rules and tables of its own
instead of by a scan.  The rules exclude each other, so a text is a token of at
most one kind.  The first lexeme of a text is spelled by these rules, and it is
the longest piece at the start of the text that is.
-/

namespace LetLang

/-- The letters of words: `A` to `Z`, `a` to `z` and the underscore. -/
def IsLetter (c : Char) : Prop :=
  ('A' ≤ c ∧ c ≤ 'Z') ∨ ('a' ≤ c ∧ c ≤ 'z') ∨ c = '_'

/-- The digits `0` to `9`. -/
def IsDigit (c : Char) : Prop :=
  '0' ≤ c ∧ c ≤ '9'

instance : DecidablePred IsLetter := fun _ => inferInstanceAs (Decidable (_ ∨ _ ∨ _))

instance : DecidablePred IsDigit := fun _ => inferInstanceAs (Decidable (_ ∧ _))

/-- The characters that only keep tokens apart. -/
def blanks : List Char :=
  [' ', '\t', '\r', '\x0c', '\n']

/-- The operators and delimiters with their kinds. -/
def TokenKind.symbols : List (String × TokenKind) :=
  [("==", .eq), ("!=", .notEq), ("=", .assign), ("+", .plus), ("-", .minus), ("!", .bang),
    ("*", .asterisk), ("/", .slash), (">", .gt), ("<", .lt), (",", .comma), (";", .semicolon),
    ("(", .lparen), (")", .rparen), ("\x7b", .lbrace), ("\x7d", .rbrace)]

/-- A letter, followed by letters and digits. -/
def IsWord (text : List Char) : Prop :=
  ∃ c tail, text = c :: tail ∧ IsLetter c ∧ ∀ d ∈ tail, IsLetter d ∨ IsDigit d

/-- The texts that are tokens of a given kind.  A character that starts no other
token is an illegal one by itself. -/
inductive Spells : TokenKind → List Char → Prop
  | keyword {kind : TokenKind} {text : List Char} :
      (String.ofList text, kind) ∈ TokenKind.keywords → Spells kind text
  | name {text : List Char} :
      IsWord text → String.ofList text ∉ TokenKind.keywords.map Prod.fst → Spells .ident text
  | number {text : List Char} :
      text ≠ [] → (∀ d ∈ text, IsDigit d) → Spells .int text
  | symbol {kind : TokenKind} {text : List Char} :
      (String.ofList text, kind) ∈ TokenKind.symbols → Spells kind text
  | illegal {c : Char} :
      c ∉ blanks → ¬IsLetter c → ¬IsDigit c →
        String.ofList [c] ∉ TokenKind.symbols.map Prod.fst → Spells .illegal [c]

/-! ## Classes of characters -/

theorem isUpper_iff {c : Char} : c.isUpper = true ↔ 'A' ≤ c ∧ c ≤ 'Z' :=
  decide_eq_true_iff

theorem isLower_iff {c : Char} : c.isLower = true ↔ 'a' ≤ c ∧ c ≤ 'z' :=
  Bool.and_eq_true_iff.trans (and_congr decide_eq_true_iff decide_eq_true_iff)

theorem isDigit_iff {c : Char} : c.isDigit = true ↔ IsDigit c :=
  Bool.and_eq_true_iff.trans (and_congr decide_eq_true_iff decide_eq_true_iff)

theorem isWordStart_iff {c : Char} : isWordStart c = true ↔ IsLetter c := by
  have halpha : c.isAlpha = true ↔ c.isUpper = true ∨ c.isLower = true := Bool.or_eq_true_iff
  rw [isWordStart, Bool.or_eq_true, halpha, isUpper_iff, isLower_iff, beq_iff_eq, or_assoc,
    IsLetter]

theorem isWordChar_iff {c : Char} : isWordChar c = true ↔ IsLetter c ∨ IsDigit c := by
  have halphanum : c.isAlphanum = true ↔ c.isAlpha = true ∨ c.isDigit = true :=
    Bool.or_eq_true_iff
  rw [← isWordStart_iff, ← isDigit_iff, isWordChar, isWordStart, Bool.or_eq_true, Bool.or_eq_true,
    halphanum]
  exact or_right_comm

theorem isBlank_iff {c : Char} : isBlank c = true ↔ c ∈ blanks := by
  simp [isBlank, blanks, or_assoc]

theorem IsLetter.not_isDigit {c : Char} (h : IsLetter c) : ¬IsDigit c := by
  intro hdigit
  have hstart := isWordStart_of_isDigit (isDigit_iff.mpr hdigit)
  exact absurd (isWordStart_iff.mpr h) (by simp [hstart])

theorem isBlank_eq_false_iff {c : Char} : isBlank c = false ↔ c ∉ blanks := by
  rw [← isBlank_iff, Bool.not_eq_true]

theorem not_mem_blanks_of_isWordChar {c : Char} (h : IsLetter c ∨ IsDigit c) : c ∉ blanks :=
  isBlank_eq_false_iff.mp (isBlank_of_isWordChar (isWordChar_iff.mpr h))

/-! ## What a token can look like -/

theorem isWord_of_mem_keywords
    {text : List Char} {kind : TokenKind}
    (h : (String.ofList text, kind) ∈ TokenKind.keywords) : IsWord text := by
  have htable : ∀ entry ∈ TokenKind.keywords, entry.1.toList ≠ [] ∧
      IsLetter (entry.1.toList.headD ' ') ∧ entry.1.toList.tail.all isWordChar = true := by
    decide
  obtain ⟨hne, hletter, hall⟩ := htable _ h
  rw [String.toList_ofList] at hne hletter hall
  obtain ⟨c, tail, rfl⟩ := List.exists_cons_of_ne_nil hne
  exact ⟨c, tail, rfl, hletter, fun d hd => isWordChar_iff.mp (List.all_eq_true.mp hall d hd)⟩

/-- A symbol has one character, or an equals sign as its second one. -/
theorem exists_cons_of_mem_symbols
    {text : List Char} {kind : TokenKind}
    (h : (String.ofList text, kind) ∈ TokenKind.symbols) :
    ∃ c tail, text = c :: tail ∧ (¬IsLetter c ∧ ¬IsDigit c ∧ c ∉ blanks) ∧
      (tail = [] ∨ (c = '=' ∨ c = '!') ∧ tail = ['=']) := by
  have hstart : ∀ entry ∈ TokenKind.symbols, entry.1.toList ≠ [] ∧
      ¬IsLetter (entry.1.toList.headD ' ') ∧ ¬IsDigit (entry.1.toList.headD ' ') ∧
        entry.1.toList.headD ' ' ∉ blanks := by
    decide
  have hlength : ∀ entry ∈ TokenKind.symbols, entry.1.toList.tail = [] ∨
      (entry.1.toList.headD ' ' = '=' ∨ entry.1.toList.headD ' ' = '!') ∧
        entry.1.toList.tail = ['='] := by
    decide
  obtain ⟨hne, hhead⟩ := hstart _ h
  have htail := hlength _ h
  rw [String.toList_ofList] at hne hhead htail
  obtain ⟨c, tail, rfl⟩ := List.exists_cons_of_ne_nil hne
  exact ⟨c, tail, rfl, hhead, htail⟩

/-- A token is a word, a number, a character of another sort, or one of the two
symbols of two characters. -/
theorem Spells.exists_cons
    {kind : TokenKind} {text : List Char} (h : Spells kind text) :
    ∃ c tail, text = c :: tail ∧ c ∉ blanks ∧
      ((IsLetter c ∧ ∀ d ∈ tail, IsLetter d ∨ IsDigit d) ∨
        (IsDigit c ∧ ∀ d ∈ tail, IsDigit d) ∨
        (¬IsLetter c ∧ ¬IsDigit c ∧ (tail = [] ∨ (c = '=' ∨ c = '!') ∧ tail = ['=']))) := by
  have hword {text : List Char} (hword : IsWord text) :
      ∃ c tail, text = c :: tail ∧ c ∉ blanks ∧ IsLetter c ∧
        ∀ d ∈ tail, IsLetter d ∨ IsDigit d := by
    obtain ⟨c, tail, rfl, hc, htail⟩ := hword
    exact ⟨c, tail, rfl, not_mem_blanks_of_isWordChar (Or.inl hc), hc, htail⟩
  cases h with
  | keyword hmem =>
      obtain ⟨c, tail, htext, hblank, hc⟩ := hword (isWord_of_mem_keywords hmem)
      exact ⟨c, tail, htext, hblank, Or.inl hc⟩
  | name hname _ =>
      obtain ⟨c, tail, htext, hblank, hc⟩ := hword hname
      exact ⟨c, tail, htext, hblank, Or.inl hc⟩
  | number hne hdigits =>
      obtain ⟨c, tail, rfl⟩ := List.exists_cons_of_ne_nil hne
      obtain ⟨hc, htail⟩ := List.forall_mem_cons.mp hdigits
      exact ⟨c, tail, rfl, not_mem_blanks_of_isWordChar (Or.inr hc), Or.inr (Or.inl ⟨hc, htail⟩)⟩
  | symbol hmem =>
      obtain ⟨c, tail, htext, ⟨hletter, hdigit, hblank⟩, htail⟩ := exists_cons_of_mem_symbols hmem
      exact ⟨c, tail, htext, hblank, Or.inr (Or.inr ⟨hletter, hdigit, htail⟩)⟩
  | @illegal c hblank hletter hdigit _ =>
      exact ⟨c, [], rfl, hblank, Or.inr (Or.inr ⟨hletter, hdigit, Or.inl rfl⟩)⟩

theorem isName_iff {x : String} :
    isName x = true ↔ IsWord x.toList ∧ x ∉ TokenKind.keywords.map Prod.fst := by
  constructor
  · intro hx
    obtain ⟨c, tail, htext, hc, htail, hkeyword⟩ := exists_toList_eq_of_isName hx
    refine ⟨⟨c, tail, htext, isWordStart_iff.mp hc, ?_⟩, by simpa using hkeyword⟩
    intro d hd
    exact isWordChar_iff.mp (htail d hd)
  · rintro ⟨⟨c, tail, htext, hc, htail⟩, hkeyword⟩
    have hall : tail.all isWordChar = true :=
      List.all_eq_true.mpr fun d hd => isWordChar_iff.mpr (htail d hd)
    simpa [isName, htext, isWordStart_iff.mpr hc, hall] using hkeyword

/-! ## A token by itself -/

theorem symbol?_eq_some_iff {c : Char} {kind : TokenKind} :
    Lexeme.symbol? c = some kind ↔ (String.ofList [c], kind) ∈ TokenKind.symbols := by
  constructor
  · intro h
    unfold Lexeme.symbol? at h
    split at h
    case h_15 => cases h
    all_goals
      obtain rfl := Option.some.inj h
      decide
  · intro h
    have htable : ∀ entry ∈ TokenKind.symbols, entry.1.toList.tail = [] →
        Lexeme.symbol? (entry.1.toList.headD ' ') = some entry.2 := by
      decide
    simpa using htable _ h (by simp)

theorem symbol?_eq_none_iff {c : Char} :
    Lexeme.symbol? c = none ↔ String.ofList [c] ∉ TokenKind.symbols.map Prod.fst := by
  simp [Option.eq_none_iff_forall_ne_some, symbol?_eq_some_iff]

theorem ofWord_of_mem_keywords
    {word : String} {kind : TokenKind} (h : (word, kind) ∈ TokenKind.keywords) :
    TokenKind.ofWord word = kind := by
  have htable : ∀ entry ∈ TokenKind.keywords, TokenKind.ofWord entry.1 = entry.2 := by
    decide
  exact htable _ h

/-- The kind of a word is that of a reserved one, if it is in the table. -/
theorem spells_ofWord {text : List Char} (h : IsWord text) :
    Spells (.ofWord (String.ofList text)) text := by
  by_cases hmem : String.ofList text ∈ TokenKind.keywords.map Prod.fst
  · obtain ⟨entry, hentry, htext⟩ := List.mem_map.mp hmem
    rw [← htext, ofWord_of_mem_keywords hentry]
    apply Spells.keyword
    rw [← htext]
    exact hentry
  · have hident : TokenKind.ofWord (String.ofList text) = .ident :=
      ofWord_of_not_mem_keywords (by simpa using hmem)
    rw [hident]
    exact Spells.name h hmem

/-! ## The first lexeme of a text -/

section First

variable {c : Char} {rest : List Char}

theorem first_of_isLetter (hc : IsLetter c) :
    Lexeme.first c rest =
      ⟨.ofWord (String.ofList (c :: rest.takeWhile isWordChar)), c, rest.takeWhile isWordChar⟩ := by
  rw [Lexeme.first, if_pos (isWordStart_iff.mpr hc)]

theorem first_of_isDigit (hc : IsDigit c) :
    Lexeme.first c rest = ⟨.int, c, rest.takeWhile Char.isDigit⟩ := by
  have hletter : ¬isWordStart c = true := fun h => (isWordStart_iff.mp h).not_isDigit hc
  rw [Lexeme.first, if_neg hletter, if_pos (isDigit_iff.mpr hc)]

/-- The two symbols of two characters. -/
theorem first_of_pair (hc : c = '=' ∨ c = '!') (hrest : rest.head? = some '=') :
    ∃ kind, Lexeme.first c rest = ⟨kind, c, ['=']⟩ ∧
      (String.ofList [c, '='], kind) ∈ TokenKind.symbols := by
  rcases hc with rfl | rfl
  · exact ⟨.eq, by simp [Lexeme.first, isWordStart, hrest], by decide⟩
  · exact ⟨.notEq, by simp [Lexeme.first, isWordStart, hrest], by decide⟩

theorem first_of_single
    (hletter : ¬IsLetter c) (hdigit : ¬IsDigit c)
    (hpair : c = '=' ∨ c = '!' → rest.head? ≠ some '=') :
    Lexeme.first c rest = ⟨(Lexeme.symbol? c).getD .illegal, c, []⟩ := by
  have heq : ¬(c = '=' ∧ rest.head? = some '=') := fun h => hpair (Or.inl h.1) h.2
  have hne : ¬(c = '!' ∧ rest.head? = some '=') := fun h => hpair (Or.inr h.1) h.2
  rw [Lexeme.first, if_neg (isWordStart_iff.not.mpr hletter), if_neg (isDigit_iff.not.mpr hdigit),
    if_neg heq, if_neg hne]

/-- The first lexeme of a text is a token. -/
theorem spells_first (hc : c ∉ blanks) (rest : List Char) :
    Spells (Lexeme.first c rest).kind (c :: (Lexeme.first c rest).tail) := by
  by_cases hletter : IsLetter c
  · rw [first_of_isLetter hletter]
    apply spells_ofWord
    refine ⟨c, _, rfl, hletter, ?_⟩
    intro d hd
    exact isWordChar_iff.mp (List.mem_takeWhile_imp hd)
  by_cases hdigit : IsDigit c
  · rw [first_of_isDigit hdigit]
    apply Spells.number (List.cons_ne_nil c _)
    rw [List.forall_mem_cons]
    refine ⟨hdigit, ?_⟩
    intro d hd
    exact isDigit_iff.mp (List.mem_takeWhile_imp hd)
  by_cases hpair : (c = '=' ∨ c = '!') ∧ rest.head? = some '='
  · obtain ⟨kind, hfirst, hmem⟩ := first_of_pair hpair.1 hpair.2
    rw [hfirst]
    exact Spells.symbol hmem
  · rw [first_of_single hletter hdigit fun hc hrest => hpair ⟨hc, hrest⟩]
    cases hsymbol : Lexeme.symbol? c with
    | none => exact Spells.illegal hc hletter hdigit (symbol?_eq_none_iff.mp hsymbol)
    | some kind => exact Spells.symbol (symbol?_eq_some_iff.mp hsymbol)

/-- No longer piece at the start of the text is a token. -/
theorem not_spells_first_append
    {more : List Char} (hmore : more ≠ []) (hrest : (Lexeme.first c rest).tail ++ more <+: rest)
    (kind : TokenKind) :
    ¬Spells kind (c :: ((Lexeme.first c rest).tail ++ more)) := by
  intro hspells
  obtain ⟨d, more, rfl⟩ := List.exists_cons_of_ne_nil hmore
  -- A run that is as long as possible is not followed by a character of its own.
  have hrun {q : Char → Bool} (h : rest.takeWhile q ++ d :: more <+: rest) : ¬q d = true := by
    nth_rewrite 2 [← List.takeWhile_append_dropWhile (p := q) (l := rest)] at h
    obtain ⟨after, hafter⟩ := (List.prefix_append_right_inj _).mp h
    have hhead := List.head?_dropWhile_not q rest
    rw [← hafter] at hhead
    simpa using hhead
  obtain ⟨c', tail, hcons, -, hcases⟩ := hspells.exists_cons
  obtain ⟨rfl, rfl⟩ := List.cons.inj hcons
  rcases hcases with ⟨hletter, htail⟩ | ⟨hdigit, htail⟩ | ⟨-, -, hnil | ⟨hc, hequals⟩⟩
  · rw [first_of_isLetter hletter] at hrest htail
    exact hrun hrest (isWordChar_iff.mpr (htail d (by simp)))
  · rw [first_of_isDigit hdigit] at hrest htail
    exact hrun hrest (isDigit_iff.mpr (htail d (by simp)))
  · exact absurd hnil (by simp)
  · rw [hequals] at hrest
    obtain ⟨after, rfl⟩ := hrest
    have hhead : (['='] ++ after).head? = some '=' := rfl
    obtain ⟨pair, hfirst, -⟩ := first_of_pair hc hhead
    rw [hfirst] at hequals
    exact absurd hequals (by simp)

theorem head_first : (Lexeme.first c rest).head = c := by
  unfold Lexeme.first
  split_ifs
  all_goals rfl

end First

/-- The first lexeme of a text is the longest token at its start. -/
theorem exists_first_eq {c : Char} (hc : c ∉ blanks) (rest : List Char) :
    ∃ kind tail after, rest = tail ++ after ∧ Lexeme.first c rest = ⟨kind, c, tail⟩ ∧
      Spells kind (c :: tail) ∧
      ∀ more, more ≠ [] → more <+: after → ∀ kind, ¬Spells kind (c :: tail ++ more) := by
  have hhead : (Lexeme.first c rest).head = c := head_first
  have hspells := spells_first hc rest
  obtain ⟨after, hafter⟩ := Lexeme.tail_first_prefixOf c rest
  have hlongest : ∀ more, more ≠ [] → more <+: after →
      ∀ kind, ¬Spells kind (c :: ((Lexeme.first c rest).tail ++ more)) := by
    intro more hmore hprefix
    apply not_spells_first_append hmore
    have hpieces := (List.prefix_append_right_inj (Lexeme.first c rest).tail).mpr hprefix
    rwa [hafter] at hpieces
  revert hhead hspells hafter hlongest
  obtain ⟨kind, head, tail⟩ := Lexeme.first c rest
  rintro rfl hspells hafter hlongest
  exact ⟨kind, tail, after, hafter.symm, rfl, hspells, hlongest⟩

/-- A text that is a token is a lexeme as a whole. -/
theorem Spells.first_eq
    {kind : TokenKind} {c : Char} {tail : List Char} (h : Spells kind (c :: tail)) :
    Lexeme.first c tail = ⟨kind, c, tail⟩ := by
  have hword {kind : TokenKind} (hword : IsWord (c :: tail))
      (hkind : TokenKind.ofWord (String.ofList (c :: tail)) = kind) :
      Lexeme.first c tail = ⟨kind, c, tail⟩ := by
    obtain ⟨c', tail', hcons, hc, htail⟩ := hword
    obtain ⟨rfl, rfl⟩ := List.cons.inj hcons
    have hrun : tail.takeWhile isWordChar = tail :=
      List.takeWhile_eq_self_iff.mpr fun d hd => isWordChar_iff.mpr (htail d hd)
    rw [first_of_isLetter hc, hrun, hkind]
  cases h with
  | keyword hmem => exact hword (isWord_of_mem_keywords hmem) (ofWord_of_mem_keywords hmem)
  | name hname hmem =>
      apply hword hname
      exact ofWord_of_not_mem_keywords (by simpa using hmem)
  | number _ hdigits =>
      obtain ⟨hc, htail⟩ := List.forall_mem_cons.mp hdigits
      have hrun : tail.takeWhile Char.isDigit = tail :=
        List.takeWhile_eq_self_iff.mpr fun d hd => isDigit_iff.mpr (htail d hd)
      rw [first_of_isDigit hc, hrun]
  | symbol hmem =>
      have htable : ∀ entry ∈ TokenKind.symbols,
          Lexeme.first (entry.1.toList.headD ' ') entry.1.toList.tail =
            ⟨entry.2, entry.1.toList.headD ' ', entry.1.toList.tail⟩ := by
        decide
      simpa using htable _ hmem
  | illegal _ hletter hdigit hsymbol =>
      rw [first_of_single hletter hdigit (by simp), symbol?_eq_none_iff.mpr hsymbol]
      rfl

theorem IsNumeral.isWordChar {digits : List Char} (h : IsNumeral digits) :
    ∀ c ∈ digits, isWordChar c = true :=
  fun c hc => isWordChar_of_isDigit (h.isDigit c hc)

theorem IsNumeral.spells {digits : List Char} (h : IsNumeral digits) : Spells .int digits :=
  .number h.ne_nil fun c hc => isDigit_iff.mp (h.isDigit c hc)

/-- A text is a token of one kind only. -/
theorem Spells.kind_unique
    {kind kind' : TokenKind} {text : List Char} (h : Spells kind text) (h' : Spells kind' text) :
    kind = kind' := by
  obtain ⟨c, tail, rfl, -⟩ := h.exists_cons
  have hfirst := h.first_eq.symm.trans h'.first_eq
  exact congrArg Lexeme.kind hfirst

/-- The longest token at the start of a text is the first lexeme. -/
theorem Spells.first_append_eq
    {kind : TokenKind} {c : Char} {tail rest : List Char} (h : Spells kind (c :: tail))
    (hlongest : ∀ more, more ≠ [] → more <+: rest → ∀ kind, ¬Spells kind (c :: tail ++ more)) :
    Lexeme.first c (tail ++ rest) = ⟨kind, c, tail⟩ := by
  obtain ⟨_, _, hcons, hblank, -⟩ := h.exists_cons
  obtain ⟨rfl, rfl⟩ := List.cons.inj hcons
  obtain ⟨kind', tail', after, htext, hfirst, hspells, hlongest'⟩ :=
    exists_first_eq hblank (tail ++ rest)
  rw [hfirst]
  -- Of two tokens at the same place neither can go on where the other ends.
  rcases List.append_eq_append_iff.mp htext with ⟨more, rfl, rfl⟩ | ⟨more, rfl, rfl⟩
  · by_cases hmore : more = []
    · subst hmore
      rw [List.append_nil] at hspells ⊢
      rw [hspells.kind_unique h]
    · exact absurd hspells (hlongest more hmore (List.prefix_append more after) kind')
  · by_cases hmore : more = []
    · subst hmore
      rw [List.append_nil] at h ⊢
      rw [hspells.kind_unique h]
    · exact absurd h (hlongest' more hmore (List.prefix_append more rest) kind)

end LetLang
