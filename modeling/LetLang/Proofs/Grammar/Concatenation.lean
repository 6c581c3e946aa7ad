import LetLang.Proofs.Grammar.Recognition
import LetLang.Proofs.Lexing.Blanks
import LetLang.Proofs.Rendering.RoundTrip

/-!
# Joining two source texts

Where one statement ends is decided by looking at the next token, so the tokens
of a second text are visible to the last statement of a first one.  For texts
without errors only a minus sign can do harm: it goes on with a last statement
whose semicolon is left out.  In all other cases two texts on consecutive lines
are read as the statements of the first followed by those of the second.
-/

namespace LetLang

namespace Grammar

/-! ## Last tokens -/

theorem Braced.exists_last
    {ts : List Token} {b : Block} {n : Nat} (h : Braced ts b n) :
    ∃ t, [t] <:+ ts ∧ t.kind = .rbrace := by
  cases h with
  | @braces t u ts _ _ _ _ hu => exact ⟨u, List.suffix_append (t :: ts) [u], hu⟩

/-- An expression does not end with a semicolon. -/
theorem Expression.exists_last :
    {σ : Stratum} → {ts : List Token} → {e : Expr} → {n : Nat} → Expression σ ts e n →
      ∃ t, [t] <:+ ts ∧ t.kind ≠ .semicolon
  | _, _, _, _, .name ht => ⟨_, List.suffix_refl _, by simp [ht]⟩
  | _, _, _, _, .int ht _ => ⟨_, List.suffix_refl _, by simp [ht]⟩
  | _, _, _, _, .boolTrue ht => ⟨_, List.suffix_refl _, by simp [ht]⟩
  | _, _, _, _, .boolFalse ht => ⟨_, List.suffix_refl _, by simp [ht]⟩
  | _, _, _, _, @Expression.group t u ts _ _ _ _ hu =>
      ⟨u, List.suffix_append (t :: ts) [u], by simp [hu]⟩
  | _, _, _, _, @Expression.ifThen i t u cs bs _ _ _ _ _ _ _ _ hb => by
      obtain ⟨v, hlast, hv⟩ := hb.exists_last
      have hbs : bs <:+ i :: t :: (cs ++ u :: bs) := by
        simpa using List.suffix_append (i :: t :: (cs ++ [u])) bs
      exact ⟨v, hlast.trans hbs, by simp [hv]⟩
  | _, _, _, _, @Expression.ifElse i t u w cs bs ds _ _ _ _ _ _ _ _ _ _ _ _ hd => by
      obtain ⟨v, hlast, hv⟩ := hd.exists_last
      have hds : ds <:+ i :: t :: (cs ++ u :: (bs ++ w :: ds)) := by
        simpa using List.suffix_append (i :: t :: (cs ++ u :: (bs ++ [w]))) ds
      exact ⟨v, hlast.trans hds, by simp [hv]⟩
  | _, _, _, _, .unary _ he => by
      obtain ⟨t, hlast, ht⟩ := he.exists_last
      exact ⟨t, hlast.trans (List.suffix_cons _ _), ht⟩
  | _, _, _, _, @Expression.binary _ _ _ o ls rs _ _ _ _ _ _ _ _ hr => by
      obtain ⟨t, hlast, ht⟩ := hr.exists_last
      exact ⟨t, hlast.trans (List.suffix_append_of_suffix (List.suffix_cons o rs)), ht⟩
  | _, _, _, _, .tighter _ he => he.exists_last

/-- A statement with a semicolon at its end is not open. -/
theorem Statement.isOpen_eq_false_of_semicolon
    {ts : List Token} {st : Stmt} {isOpen : Bool} {n : Nat} (h : Statement ts st isOpen n)
    {t : Token} (ht : ts.getLast? = some t) (hkind : t.kind = .semicolon) : isOpen = false := by
  have hvalue {vs us : List Token} {e : Expr} {k : Nat} (he : Expression .equality vs e k)
      (hus : Ending us isOpen) (hsuffix : vs ++ us <:+ ts) : isOpen = false := by
    cases hus with
    | semicolon _ => rfl
    | omitted =>
        rw [List.append_nil] at hsuffix
        obtain ⟨u, hlast, hu⟩ := he.exists_last
        have hts : ts.getLast? = some u :=
          List.singleton_suffix_iff_getLast?_eq_some.mp (hlast.trans hsuffix)
        obtain rfl : u = t := Option.some.inj (hts.symm.trans ht)
        exact absurd hkind hu
  cases h with
  | @bind k x a _ _ _ _ _ _ _ _ he hus => exact hvalue he hus (List.suffix_append [k, x, a] _)
  | @ret k _ _ _ _ _ _ he hus => exact hvalue he hus (List.suffix_cons k _)
  | expr he hus => exact hvalue he hus (List.suffix_refl _)
  | block _ => rfl

theorem Statement.isOpen_eq_false_of_block
    {ts : List Token} {b : List Stmt} {isOpen : Bool} {n : Nat}
    (h : Statement ts (.block b) isOpen n) : isOpen = false := by
  cases h with
  | block _ => rfl

/-! ## Joining derivations -/

/-- Behind the tokens `ts` of the statements `b` the tokens `us` start a new
statement: `ts` has a definite end, or `us` does not start with a minus sign. -/
def StartsAfter (ts : List Token) (b : List Stmt) (us : List Token) : Prop :=
  ts = [] ∨ (∃ t ∈ ts.getLast?, t.kind = .semicolon) ∨
    (∃ s, b.getLast? = some (.block s)) ∨ ∀ u ∈ us.head?, u.kind ≠ .minus

theorem Statements.of_tokens_eq_nil
    {b : List Stmt} {n : Nat} (h : Statements [] b n) : b = [] ∧ n = 0 := by
  generalize hts : ([] : List Token) = ts at h
  cases h with
  | nil => exact ⟨rfl, rfl⟩
  | cons hs _ _ =>
      obtain ⟨t, us, rfl, -⟩ := hs.exists_head
      exact absurd hts (by simp)

/-- An open statement at the end leaves it to the tokens behind it not to start
with a minus sign. -/
theorem Statement.kind_head?_ne_minus
    {ts us : List Token} {st : Stmt} {isOpen : Bool} {n : Nat} (h : Statement ts st isOpen n)
    (hstarts : StartsAfter ts [st] us) (hopen : isOpen = true) :
    ∀ u ∈ us.head?, u.kind ≠ .minus := by
  subst hopen
  obtain ⟨t, vs, rfl, -⟩ := h.exists_head
  rcases hstarts with hnil | ⟨u, hu, hkind⟩ | ⟨b, hb⟩ | hminus
  · exact absurd hnil (by simp)
  · exact absurd (h.isOpen_eq_false_of_semicolon hu hkind) (by simp)
  · obtain rfl : st = .block b := by simpa using hb
    exact absurd h.isOpen_eq_false_of_block (by simp)
  · exact hminus

theorem Statements.append :
    {ts us : List Token} → {b c : List Stmt} → {m n : Nat} →
      Statements ts b m → Statements us c n → StartsAfter ts b us →
      Statements (ts ++ us) (b ++ c) (max m n)
  | _, _, _, _, _, n, .nil, hc, _ => by
      rw [Nat.max_eq_right (Nat.zero_le n)]
      exact hc
  | _, us, _, c, _, n, @Statements.cons ts vs st b isOpen k l hst hminus hb, hc, hstarts => by
      rw [List.append_assoc, List.cons_append, Nat.max_assoc]
      by_cases hvs : vs = []
      · subst hvs
        obtain ⟨rfl, rfl⟩ := hb.of_tokens_eq_nil
        rw [List.append_nil] at hstarts
        refine .cons hst (hst.kind_head?_ne_minus hstarts) ?_
        rw [Nat.max_eq_right (Nat.zero_le n)]
        exact hc
      · have hb' : b ≠ [] := by
          rintro rfl
          cases hb
          exact hvs rfl
        -- The last token and the last statement are those of the remaining ones.
        have hrest : StartsAfter vs b us := by
          rcases hstarts with hnil | hlast | hblock | hus
          · exact absurd (List.append_eq_nil_iff.mp hnil).2 hvs
          · rw [List.getLast?_append_of_ne_nil _ hvs] at hlast
            exact Or.inr (Or.inl hlast)
          · rw [List.getLast?_cons_of_ne_nil hb'] at hblock
            exact Or.inr (Or.inr (Or.inl hblock))
          · exact Or.inr (Or.inr (Or.inr hus))
        refine .cons hst ?_ (hb.append hc hrest)
        intro hopen u hu
        rw [List.head?_append_of_ne_nil _ hvs] at hu
        exact hminus hopen u hu

end Grammar

open Grammar

/-! ## Texts -/

theorem Program.reads_of_parse_eq_ok
    {source : String} {p : Program} (h : Program.parse source = .ok p) :
    ∃ s, Parser.Reads (Parser.program Parser.maxNesting) (.ofSource source) p s := by
  unfold Program.parse Program.ofReading at h
  split at h
  · next herrors hvalue =>
    obtain rfl := Except.ok.inj h
    exact ⟨_, hvalue, rfl, SyntaxError.reported_eq_nil_iff.mp herrors⟩
  · cases h

theorem Program.parse_eq_ok_of_derives
    {source : String} {p : Program} {n : Nat}
    (h : Derives (TokenStream.ofSource source).tokens p n) (hn : n ≤ Parser.maxNesting) :
    Program.parse source = .ok p :=
  ofReading_of_reads (Parser.reads_program_of_derives _ h hn)

/-- Tokens that are read as a program are still read as it at another place. -/
theorem Parser.Reads.of_alike
    {s s' s₁ : TokenStream} {p : Program} (hs : s.Alike Token.SameText s')
    (h : Reads (program maxNesting) s p s₁) :
    ∃ s₁', Reads (program maxNesting) s' p s₁' := by
  have halike := (respected_alike fun _ _ h => h).program maxNesting s s' hs
  have herrors : ((program maxNesting) s').errors = [] := by
    have hforall := halike.errors
    rw [h.2.2] at hforall
    exact List.forall₂_nil_left_iff.mp hforall
  exact ⟨_, halike.value.symm.trans h.1, rfl, herrors⟩

/-- The tokens of a text that parses derive its program, at whatever place the
text stands. -/
theorem Program.derives_scan_of_parse_eq_ok
    {source : String} {p : Program} (h : Program.parse source = .ok p) (position : Position) :
    ∃ n, Derives (scan 0 position source.toList) p n ∧ n ≤ Parser.maxNesting := by
  obtain ⟨s, hreads⟩ := Program.reads_of_parse_eq_ok h
  have halike : (TokenStream.ofSource source).Alike Token.SameText
      ⟨scan 0 position source.toList, position⟩ :=
    ⟨sameText_scan 0 _ _ _, rfl, rfl⟩
  obtain ⟨s', hreads'⟩ := hreads.of_alike halike
  exact Parser.derives_of_reads_program (fun t ht => kind_ne_eof_of_mem_scan ht) hreads'

/-- Two texts without errors on consecutive lines are read as the statements of
the first one followed by those of the second, if the first has no tokens, ends
with a semicolon or with a block, or if the second does not start with a minus
sign. -/
theorem parse_append_newline
    (s₁ s₂ : String) (p₁ p₂ : Program)
    (h₁ : Program.parse s₁ = .ok p₁) (h₂ : Program.parse s₂ = .ok p₂)
    (hstarts : (TokenStream.ofSource s₁).tokens = [] ∨
      (∃ t ∈ (TokenStream.ofSource s₁).tokens.getLast?, t.kind = .semicolon) ∨
      (∃ b, p₁.statements.getLast? = some (.block b)) ∨
      ∀ t ∈ (TokenStream.ofSource s₂).tokens.head?, t.kind ≠ .minus) :
    Program.parse (s₁ ++ "\n" ++ s₂) = .ok ⟨p₁.statements ++ p₂.statements⟩ := by
  let behind : Position := Position.start.afterAll (s₁.toList ++ ['\n'])
  obtain ⟨m, hderives₁, hm⟩ := Program.derives_scan_of_parse_eq_ok h₁ .start
  obtain ⟨n, hderives₂, hn⟩ := Program.derives_scan_of_parse_eq_ok h₂ behind
  have htokens : (TokenStream.ofSource (s₁ ++ "\n" ++ s₂)).tokens =
      scan 0 .start s₁.toList ++ scan 0 behind s₂.toList := by
    have htext : (s₁ ++ "\n" ++ s₂).toList = s₁.toList ++ '\n' :: s₂.toList := by simp
    have hscan := scan_append_blank (w := '\n') rfl s₁.toList s₂.toList (Nat.zero_le _) .start
    rw [← htext] at hscan
    exact hscan
  have hstarts' : StartsAfter (scan 0 .start s₁.toList) p₁.statements
      (scan 0 behind s₂.toList) := by
    rcases hstarts with hnil | hlast | hblock | hminus
    · exact Or.inl hnil
    · exact Or.inr (Or.inl hlast)
    · exact Or.inr (Or.inr (Or.inl hblock))
    · refine Or.inr (Or.inr (Or.inr ?_))
      intro u hu
      obtain ⟨t, ht, hkind⟩ := exists_head?_scan hu .start
      exact hkind ▸ hminus t ht
  refine Program.parse_eq_ok_of_derives ?_ (Nat.max_le.mpr ⟨hm, hn⟩)
  rw [htokens]
  exact hderives₁.append hderives₂ hstarts'

/-- A first text that ends with a block and a second one that starts with a minus
sign. -/
theorem parse_append_newline_block :
    ∃ (s₁ s₂ : String) (p₁ p₂ : Program),
      s₁ = "let a = 1 \x7b a \x7d" ∧ s₂ = "-a" ∧
      p₁ = ⟨[.bind "a" (.int ⟨1, by decide⟩), .block [.expr (.name "a")]]⟩ ∧
      p₂ = ⟨[.expr (.unary .neg (.name "a"))]⟩ ∧
      Program.parse s₁ = .ok p₁ ∧ Program.parse s₂ = .ok p₂ ∧
      (∃ b, p₁.statements.getLast? = some (.block b)) ∧
      Program.parse (s₁ ++ "\n" ++ s₂) = .ok ⟨p₁.statements ++ p₂.statements⟩ := by
  have hblock : ∃ b, [Stmt.bind "a" (.int ⟨1, by decide⟩),
      .block [.expr (.name "a")]].getLast? = some (.block b) :=
    ⟨_, rfl⟩
  refine ⟨_, _, _, _, rfl, rfl, rfl, rfl, rfl, rfl, hblock, ?_⟩
  exact parse_append_newline _ _ _ _ rfl rfl (Or.inr (Or.inr (Or.inl hblock)))

end LetLang
