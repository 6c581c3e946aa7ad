import LetLang.Proofs.Lexing.Spelling
import Mathlib.Data.List.DropRight

/-!
# A text is cut into its tokens

The tokens of a text and the gaps of blanks between them give the text back.
Every token is the longest one that starts at its place, and its position is
determined by the text before it.  A text is cut up in this way in only one
manner, so these conditions say exactly what the tokens of a text are.
-/

namespace LetLang

/-- The place behind a text: lines are counted by line feeds, and columns by the
characters after the last one. -/
def Position.behind (before : List Char) : Position :=
  ⟨1 + before.count '\n', 1 + (before.rtakeWhile (· ≠ '\n')).length⟩

theorem Position.afterAll_start (before : List Char) :
    Position.start.afterAll before = Position.behind before := by
  induction before using List.reverseRecOn with
  | nil => rfl
  | append_singleton before c ih =>
      rw [Position.afterAll_append, ih, Position.afterAll_cons, Position.afterAll_nil,
        Position.after]
      by_cases hc : c = '\n'
      · subst hc
        rw [if_pos rfl]
        simp [Position.behind, Nat.add_assoc]
      · rw [if_neg hc]
        have hcount : (before ++ [c]).count '\n' = before.count '\n' := by simp [hc]
        have hline : (before ++ [c]).rtakeWhile (· ≠ '\n') =
            before.rtakeWhile (· ≠ '\n') ++ [c] := by
          simp [hc]
        rw [Position.behind, Position.behind, hcount, hline, List.length_append]
        rfl

theorem Position.afterAll_behind (before text : List Char) :
    (Position.behind before).afterAll text = Position.behind (before ++ text) := by
  rw [← Position.afterAll_start, ← Position.afterAll_start, Position.afterAll_append]

/-! ## Tokens among their neighbours -/

/-- A text of blanks. -/
def IsGap (text : List Char) : Prop :=
  ∀ c ∈ text, c ∈ blanks

/-- A token of a text, between the text before it and the text behind it. -/
structure Token.StandsBetween (before after : List Char) (t : Token) : Prop where
  nonempty : t.literal ≠ ""
  /-- Its kind is the one that its text has. -/
  kind : ∀ kind, Spells kind t.literal.toList ↔ kind = t.kind
  keyword : t.kind ∈ TokenKind.keywords.map Prod.snd ↔
    t.literal ∈ TokenKind.keywords.map Prod.fst
  /-- Together with what follows it is no token any more. -/
  longest : ∀ more, more ≠ [] → more <+: after →
    ∀ kind, ¬Spells kind (t.literal.toList ++ more)
  word : t.kind = .ident ∨ t.kind ∈ TokenKind.keywords.map Prod.snd →
    IsWord t.literal.toList ∧ ∀ c ∈ after.head?, ¬(IsLetter c ∨ IsDigit c)
  number : t.kind = .int →
    (∀ d ∈ t.literal.toList, IsDigit d) ∧ ∀ c ∈ after.head?, ¬IsDigit c
  operator : t.kind = .assign ∨ t.kind = .bang → after.head? ≠ some '='
  /-- An illegal token is a single character with which no other token starts. -/
  illegal : t.kind = .illegal → ∃ c, t.literal.toList = [c] ∧ c ∉ blanks ∧
    ∀ kind text, Spells kind (c :: text) → kind = .illegal
  position : t.position = Position.behind before

/-- The kinds of keywords and symbols come from no other rule. -/
theorem kind_ne_of_mem_table
    {text : String} {kind : TokenKind}
    (h : (text, kind) ∈ TokenKind.keywords ∨ (text, kind) ∈ TokenKind.symbols) :
    kind ≠ .ident ∧ kind ≠ .int ∧ kind ≠ .illegal := by
  have htable : ∀ entry ∈ TokenKind.keywords ++ TokenKind.symbols,
      entry.2 ≠ .ident ∧ entry.2 ≠ .int ∧ entry.2 ≠ .illegal := by
    decide
  exact htable _ (List.mem_append.mpr h)

section Spells

variable {kind : TokenKind} {text : List Char} (h : Spells kind text)
include h

theorem Spells.isWord
    (hkind : kind = .ident ∨ kind ∈ TokenKind.keywords.map Prod.snd) : IsWord text := by
  have hsymbols : ∀ entry ∈ TokenKind.symbols,
      ¬(entry.2 = .ident ∨ entry.2 ∈ TokenKind.keywords.map Prod.snd) := by
    decide
  cases h with
  | keyword hmem => exact isWord_of_mem_keywords hmem
  | name hname _ => exact hname
  | number _ _ => exact absurd hkind (by decide)
  | symbol hmem => exact absurd hkind (hsymbols _ hmem)
  | illegal _ _ _ _ => exact absurd hkind (by decide)

theorem Spells.mem_keywords_iff :
    kind ∈ TokenKind.keywords.map Prod.snd ↔
      String.ofList text ∈ TokenKind.keywords.map Prod.fst := by
  constructor
  · intro hkind
    have hword := h.isWord (Or.inr hkind)
    by_contra hmem
    obtain rfl := h.kind_unique (Spells.name hword hmem)
    exact absurd hkind (by decide)
  · intro htext
    obtain ⟨entry, hentry, hliteral⟩ := List.mem_map.mp htext
    have hkeyword : Spells entry.2 text := Spells.keyword (hliteral ▸ hentry)
    rw [h.kind_unique hkeyword]
    exact List.mem_map_of_mem hentry

theorem Spells.isDigit_of_mem (hkind : kind = .int) : ∀ d ∈ text, IsDigit d := by
  cases h with
  | keyword hmem => exact absurd hkind (kind_ne_of_mem_table (Or.inl hmem)).2.1
  | name _ _ => exact absurd hkind (by decide)
  | number _ hdigits => exact hdigits
  | symbol hmem => exact absurd hkind (kind_ne_of_mem_table (Or.inr hmem)).2.1
  | illegal _ _ _ _ => exact absurd hkind (by decide)

/-- The kind of a symbol belongs to no other text. -/
theorem Spells.eq_of_mem_symbols
    {symbol : String} (hsymbol : (symbol, kind) ∈ TokenKind.symbols) : text = symbol.toList := by
  have htable : ∀ entry ∈ TokenKind.symbols,
      (∀ keyword ∈ TokenKind.keywords, keyword.2 ≠ entry.2) ∧
      ∀ other ∈ TokenKind.symbols, other.2 = entry.2 → other.1.toList = entry.1.toList := by
    decide
  obtain ⟨hkeywords, hunique⟩ := htable _ hsymbol
  obtain ⟨hident, hint, hillegal⟩ := kind_ne_of_mem_table (Or.inr hsymbol)
  cases h with
  | keyword hmem => exact (hkeywords _ hmem rfl).elim
  | name _ _ => exact absurd rfl hident
  | number _ _ => exact absurd rfl hint
  | symbol hmem => simpa using hunique _ hmem rfl
  | illegal _ _ _ _ => exact absurd rfl hillegal

theorem Spells.exists_of_illegal
    (hkind : kind = .illegal) :
    ∃ c, text = [c] ∧ c ∉ blanks ∧ ∀ kind text, Spells kind (c :: text) → kind = .illegal := by
  cases h with
  | keyword hmem => exact absurd hkind (kind_ne_of_mem_table (Or.inl hmem)).2.2
  | name _ _ => exact absurd hkind (by decide)
  | number _ _ => exact absurd hkind (by decide)
  | symbol hmem => exact absurd hkind (kind_ne_of_mem_table (Or.inr hmem)).2.2
  | @illegal c hblank hletter hdigit hsymbol =>
      refine ⟨c, rfl, hblank, ?_⟩
      intro kind text hspells
      obtain ⟨c', tail, hcons, -, hcases⟩ := hspells.exists_cons
      obtain ⟨rfl, rfl⟩ := List.cons.inj hcons
      rcases hcases with ⟨hc, -⟩ | ⟨hc, -⟩ | ⟨-, -, rfl | ⟨hc, -⟩⟩
      · exact absurd hc hletter
      · exact absurd hc hdigit
      · exact hspells.kind_unique (Spells.illegal hblank hletter hdigit hsymbol)
      · rcases hc with rfl | rfl
        all_goals exact absurd (by decide) hsymbol

end Spells

/-- It is enough to know that the text of a token has its kind, that no longer
text is a token and where it stands. -/
theorem Token.standsBetween_of_longest
    {before after : List Char} {t : Token} (h : Spells t.kind t.literal.toList)
    (hlongest : ∀ more, more ≠ [] → more <+: after →
      ∀ kind, ¬Spells kind (t.literal.toList ++ more))
    (hposition : t.position = Position.behind before) :
    t.StandsBetween before after := by
  have hnext {c : Char} (hc : c ∈ after.head?) (kind : TokenKind) :
      ¬Spells kind (t.literal.toList ++ [c]) :=
    hlongest [c] (List.cons_ne_nil c []) (List.singleton_prefix_iff_head?_eq_some.mpr hc) kind
  have hsymbol (symbol : String) (kind : TokenKind) (hmem : (symbol, t.kind) ∈ TokenKind.symbols)
      (hmem' : (symbol ++ "=", kind) ∈ TokenKind.symbols) : after.head? ≠ some '=' := by
    intro hhead
    apply hnext hhead kind
    rw [h.eq_of_mem_symbols hmem]
    apply Spells.symbol
    simpa using hmem'
  constructor
  case nonempty =>
    intro hliteral
    obtain ⟨c, tail, htext, -⟩ := h.exists_cons
    simp [hliteral] at htext
  case kind =>
    intro kind
    constructor
    · exact fun hspells => hspells.kind_unique h
    · rintro rfl
      exact h
  case keyword => simpa using h.mem_keywords_iff
  case longest => exact hlongest
  case word =>
    intro hkind
    have hword := h.isWord hkind
    refine ⟨hword, ?_⟩
    intro c hc hchar
    apply hnext hc _ (spells_ofWord _)
    obtain ⟨d, tail, htext, hd, htail⟩ := hword
    refine ⟨d, tail ++ [c], by rw [htext, List.cons_append], hd, ?_⟩
    simpa [or_imp, forall_and] using ⟨htail, hchar⟩
  case number =>
    intro hkind
    have hdigits := h.isDigit_of_mem hkind
    refine ⟨hdigits, ?_⟩
    intro c hc hdigit
    apply hnext hc .int
    apply Spells.number (by simp)
    simpa [or_imp, forall_and] using ⟨hdigits, hdigit⟩
  case operator =>
    rintro (hkind | hkind)
    · exact hsymbol "=" .eq (by rw [hkind]; decide) (by decide)
    · exact hsymbol "!" .notEq (by rw [hkind]; decide) (by decide)
  case illegal => exact h.exists_of_illegal
  case position => exact hposition

/-! ## Segmentation -/

/-- A text that stands behind `before` is cut into the given tokens, with gaps
before, between and behind them. -/
inductive Segmented : (before text : List Char) → List Token → Prop
  | gap {before text : List Char} : IsGap text → Segmented before text []
  | token {before gap rest : List Char} {t : Token} {ts : List Token} :
      IsGap gap → t.StandsBetween (before ++ gap) rest →
        Segmented (before ++ gap ++ t.literal.toList) rest ts →
          Segmented before (gap ++ (t.literal.toList ++ rest)) (t :: ts)

theorem scan_gap_append {gap : List Char} (hgap : IsGap gap) (p : Position) (rest : List Char) :
    scan 0 p (gap ++ rest) = scan 0 (p.afterAll gap) rest := by
  induction gap generalizing p with
  | nil => rfl
  | cons c gap ih =>
      obtain ⟨hc, hgap⟩ := List.forall_mem_cons.mp hgap
      rw [List.cons_append, scan, if_pos (isBlank_iff.mpr hc), ih hgap, Position.afterAll_cons]

theorem scan_cons_of_first_eq
    {c : Char} {tail rest : List Char} {kind : TokenKind} (hc : c ∉ blanks)
    (hfirst : Lexeme.first c (tail ++ rest) = ⟨kind, c, tail⟩) (p : Position) :
    scan 0 p (c :: (tail ++ rest)) =
      ⟨kind, String.ofList (c :: tail), p⟩ :: scan 0 (p.afterAll (c :: tail)) rest := by
  have hblank : ¬isBlank c = true := fun h => hc (isBlank_iff.mp h)
  rw [scan, if_neg hblank]
  simp only [hfirst, scan_length_append, Lexeme.literal, Position.afterAll_cons]

theorem Segmented.cons_of_mem_blanks
    {before text : List Char} {ts : List Token} {c : Char} (hc : c ∈ blanks)
    (h : Segmented (before ++ [c]) text ts) : Segmented before (c :: text) ts := by
  cases h with
  | gap hgap => exact Segmented.gap (List.forall_mem_cons.mpr ⟨hc, hgap⟩)
  | @token _ gap rest t ts hgap hstands hrest =>
      have hbefore : before ++ [c] ++ gap = before ++ (c :: gap) := by simp
      rw [hbefore] at hstands hrest
      exact Segmented.token (List.forall_mem_cons.mpr ⟨hc, hgap⟩) hstands hrest

theorem Segmented.cons_of_spells
    {kind : TokenKind} {literal before rest : List Char} {ts : List Token}
    (h : Spells kind literal)
    (hlongest : ∀ more, more ≠ [] → more <+: rest → ∀ kind, ¬Spells kind (literal ++ more))
    (hrest : Segmented (before ++ literal) rest ts) :
    Segmented before (literal ++ rest)
      (⟨kind, String.ofList literal, Position.behind before⟩ :: ts) := by
  let t : Token := ⟨kind, String.ofList literal, Position.behind before⟩
  have hliteral : t.literal.toList = literal := String.toList_ofList
  have hstands : t.StandsBetween (before ++ []) rest := by
    rw [List.append_nil]
    apply Token.standsBetween_of_longest
    · rw [hliteral]
      exact h
    · rw [hliteral]
      exact hlongest
    · rfl
  have hsegmented : Segmented before ([] ++ (t.literal.toList ++ rest)) (t :: ts) := by
    apply Segmented.token (List.forall_mem_nil _) hstands
    rw [List.append_nil, hliteral]
    exact hrest
  rw [hliteral] at hsegmented
  exact hsegmented

/-- The scan cuts a text up. -/
theorem segmented_scan (before text : List Char) :
    Segmented before text (scan 0 (Position.behind before) text) := by
  induction hlength : text.length using Nat.strong_induction_on generalizing before text with
  | h n ih =>
    cases text with
    | nil => exact Segmented.gap (List.forall_mem_nil _)
    | cons c rest =>
      by_cases hc : c ∈ blanks
      · have hshorter : rest.length < n := hlength ▸ Nat.lt_succ_self rest.length
        have hrest := ih rest.length hshorter (before ++ [c]) rest rfl
        rw [← Position.afterAll_behind] at hrest
        rw [scan, if_pos (isBlank_iff.mpr hc)]
        exact Segmented.cons_of_mem_blanks hc hrest
      · obtain ⟨kind, tail, after, rfl, hfirst, hspells, hlongest⟩ := exists_first_eq hc rest
        have hshorter : after.length < n := by
          rw [← hlength, List.length_cons, List.length_append]
          omega
        have hafter := ih after.length hshorter (before ++ c :: tail) after rfl
        rw [← Position.afterAll_behind] at hafter
        rw [scan_cons_of_first_eq hc hfirst]
        exact Segmented.cons_of_spells hspells hlongest hafter

/-- There is no other manner to cut it up. -/
theorem Segmented.scan_eq
    {before text : List Char} {ts : List Token} (h : Segmented before text ts) :
    scan 0 (Position.behind before) text = ts := by
  induction h with
  | @gap before text hgap =>
      rw [← List.append_nil text, scan_gap_append hgap, scan]
  | @token before gap rest t ts hgap hstands _ ih =>
      have hspells : Spells t.kind t.literal.toList := (hstands.kind t.kind).mpr rfl
      have hlongest := hstands.longest
      obtain ⟨c, tail, hliteral, hc, -⟩ := hspells.exists_cons
      rw [hliteral] at hspells hlongest ih ⊢
      have hfirst := hspells.first_append_eq hlongest
      rw [scan_gap_append hgap, Position.afterAll_behind, List.cons_append,
        scan_cons_of_first_eq hc hfirst, Position.afterAll_behind, ih, ← hstands.position,
        ← hliteral, String.ofList_toList]

theorem Segmented.spells_of_mem
    {before text : List Char} {ts : List Token} (h : Segmented before text ts)
    {t : Token} (ht : t ∈ ts) : Spells t.kind t.literal.toList := by
  induction h with
  | gap _ => exact absurd ht List.not_mem_nil
  | token _ hstands _ ih =>
      rcases List.mem_cons.mp ht with rfl | ht
      · exact (hstands.kind t.kind).mpr rfl
      · exact ih ht

/-! ## Streams -/

/-- Behind its tokens a stream goes on with one and the same end-of-input token. -/
theorem TokenStream.take_length_add (s : TokenStream) (n : Nat) :
    s.take (s.tokens.length + n) = s.tokens ++ List.replicate n (Token.eof s.ending) := by
  obtain ⟨tokens, ending⟩ := s
  induction tokens with
  | nil =>
      rw [List.length_nil, Nat.zero_add, List.nil_append]
      induction n with
      | zero => rfl
      | succ n ih => rw [take, tail_nil, ih, head_nil, List.replicate_succ]
  | cons t ts ih =>
      rw [List.length_cons, Nat.add_right_comm, take, tail_cons, ih, head_cons, List.cons_append]

/-- The tokens of a source text, together with gaps of blanks, give the text back.
Each of them is the longest token at its place and has the position of its first
character, there is only one way to cut the text up like this, and behind the
tokens there is nothing but the end-of-input token at the end of the text. -/
theorem source_segmented (source : String) :
    Segmented [] source.toList (TokenStream.ofSource source).tokens ∧
      (∀ ts, Segmented [] source.toList ts → ts = (TokenStream.ofSource source).tokens) ∧
      (∀ t ∈ (TokenStream.ofSource source).tokens, t.kind ≠ .eof) ∧
      ∀ n, (TokenStream.ofSource source).take ((TokenStream.ofSource source).tokens.length + n) =
        (TokenStream.ofSource source).tokens ++
          List.replicate n (Token.eof (Position.behind source.toList)) := by
  refine ⟨?_, ?_, ?_, ?_⟩
  · exact segmented_scan [] source.toList
  · intro ts hts
    exact hts.scan_eq.symm
  · intro t ht
    exact kind_ne_eof_of_mem_scan ht
  · intro n
    rw [TokenStream.take_length_add, ← Position.afterAll_start]
    rfl

/-- A character outside all rules, symbols that share a character, a number that
runs into a word, and two lines. -/
theorem source_segmented_two_lines :
    ∃ (source : String) (ts : List Token), source = "é ==\n=1x" ∧
      ts = [⟨.illegal, "é", ⟨1, 1⟩⟩, ⟨.eq, "==", ⟨1, 3⟩⟩, ⟨.assign, "=", ⟨2, 1⟩⟩,
        ⟨.int, "1", ⟨2, 2⟩⟩, ⟨.ident, "x", ⟨2, 3⟩⟩] ∧
      Segmented [] source.toList ts ∧
      (∀ us, Segmented [] source.toList us → us = ts) ∧
      (TokenStream.ofSource source).take (ts.length + 2) =
        ts ++ List.replicate 2 (Token.eof ⟨2, 4⟩) := by
  obtain ⟨hsegmented, hunique, -, htake⟩ := source_segmented "é ==\n=1x"
  exact ⟨_, _, rfl, rfl, hsegmented, hunique, htake 2⟩

end LetLang
