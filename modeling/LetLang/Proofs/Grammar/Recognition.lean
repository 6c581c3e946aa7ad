import LetLang.Proofs.Grammar.Completeness

/-!
# The parser recognizes the grammar

Soundness and completeness together: on a list of tokens without an end-of-input
token the parser finds no error exactly if the list is derived by the grammar
with a nesting that the limit allows, and it then builds the tree of that
derivation.  Since the parser is a function, the grammar is unambiguous.
-/

namespace LetLang

open Grammar

namespace Parser

theorem Reads.value_unique
    {α : Type} {p : Parser α} {s s₁ s₂ : TokenStream} {a b : α}
    (ha : Reads p s a s₁) (hb : Reads p s b s₂) : a = b :=
  Option.some.inj (ha.1.symm.trans hb.1)

theorem reads_program_of_derives
    {ts : List Token} {p : Program} {n room : Nat} (ending : Position)
    (h : Derives ts p n) (hn : n ≤ room) :
    Reads (program room) ⟨ts, ending⟩ p ⟨[], ending⟩ := by
  have hreads : ReadsIf (n ≤ room) (program room) (TokenStream.prepend ts ⟨[], ending⟩) p
      ⟨[], ending⟩ :=
    program_complete h rfl
  simpa [TokenStream.prepend] using hreads.reads hn

theorem derives_of_reads_program
    {ts : List Token} (hts : ∀ t ∈ ts, t.kind ≠ .eof) {p : Program} {room : Nat}
    {ending : Position} {s' : TokenStream} (h : Reads (program room) ⟨ts, ending⟩ p s') :
    ∃ n, Derives ts p n ∧ n ≤ room := by
  obtain ⟨us, n, hs, hp, hn, heof⟩ := program_sound h
  have htokens : ts = us ++ s'.tokens := congrArg TokenStream.tokens hs
  have hrest : s'.tokens = [] := by
    cases hs' : s'.tokens with
    | nil => rfl
    | cons t rest =>
        have hmem : t ∈ ts := by simp [htokens, hs']
        have hkind : t.kind = .eof := by simpa [TokenStream.head, hs'] using heof
        exact absurd hkind (hts t hmem)
  rw [hrest, List.append_nil] at htokens
  exact ⟨n, htokens ▸ hp, hn⟩

end Parser

/-- A list of tokens derives at most one program. -/
theorem Grammar.Derives.program_unique
    {ts : List Token} {p q : Program} {m n : Nat}
    (hp : Derives ts p m) (hq : Derives ts q n) : p = q :=
  (Parser.reads_program_of_derives ⟨0, 0⟩ hp (Nat.le_max_left m n)).value_unique
    (Parser.reads_program_of_derives ⟨0, 0⟩ hq (Nat.le_max_right m n))

/-- The parser accepts exactly the token lists that the grammar derives with a
nesting of at most 256, it reads them as the program they derive, and they
derive no other program. -/
theorem read_ofList_accepts_iff_derives
    (ts : List Token) (hts : ∀ t ∈ ts, t.kind ≠ .eof) :
    (SyntaxError.reported (Program.read (.ofList ts)).errors = [] ↔
      ∃ p n, Derives ts p n ∧ n ≤ 256) ∧
    (∀ p n, Derives ts p n → n ≤ 256 → (Program.read (.ofList ts)).value = some p) ∧
    (∀ p q m n, Derives ts p m → Derives ts q n → p = q) := by
  have hread {p : Program} {n : Nat} (h : Derives ts p n) (hn : n ≤ 256) :
      Parser.Reads (Parser.program Parser.maxNesting) (.ofList ts) p
        ⟨[], (TokenStream.ofList ts).ending⟩ :=
    Parser.reads_program_of_derives _ h hn
  refine ⟨?_, fun p n h hn => (hread h hn).1, fun p q m n => Derives.program_unique⟩
  rw [SyntaxError.reported_eq_nil_iff]
  constructor
  · intro herrors
    obtain ⟨p, hp⟩ :=
      (Parser.inherited_reportsFailure.program _).exists_reads herrors
    obtain ⟨n, h, hn⟩ := Parser.derives_of_reads_program hts hp
    exact ⟨p, n, h, hn⟩
  · rintro ⟨p, n, h, hn⟩
    exact (hread h hn).2.2

/-- The tokens of `1 - 2 * -x`.  While the name is read, four expressions are open: the
difference, the product, the negation and the name itself. -/
theorem derives_difference :
    ∃ (ts : List Token) (p : Program),
      ts = [⟨.int, "1", ⟨1, 1⟩⟩, ⟨.minus, "-", ⟨1, 3⟩⟩, ⟨.int, "2", ⟨1, 5⟩⟩,
        ⟨.asterisk, "*", ⟨1, 7⟩⟩, ⟨.minus, "-", ⟨1, 9⟩⟩, ⟨.ident, "x", ⟨1, 10⟩⟩] ∧
      p = ⟨[.expr (.binary .sub (.int ⟨1, by decide⟩)
        (.binary .mul (.int ⟨2, by decide⟩) (.unary .neg (.name "x"))))]⟩ ∧
      (∀ t ∈ ts, t.kind ≠ .eof) ∧ Derives ts p 4 ∧
      SyntaxError.reported (Program.read (.ofList ts)).errors = [] ∧
      (Program.read (.ofList ts)).value = some p ∧
      ∀ q n, Derives ts q n → q = p := by
  have hone : Expression .sum [⟨.int, "1", ⟨1, 1⟩⟩] (.int ⟨1, by decide⟩) 1 :=
    Expression.of_rank_le (.int rfl (writes_of_parse?_eq_some rfl)) (by decide)
  have htwo : Expression .product [⟨.int, "2", ⟨1, 5⟩⟩] (.int ⟨2, by decide⟩) 1 :=
    Expression.of_rank_le (.int rfl (writes_of_parse?_eq_some rfl)) (by decide)
  have hname : Expression .unary [⟨.ident, "x", ⟨1, 10⟩⟩] (.name "x") 1 :=
    Expression.of_rank_le (.name rfl) (by decide)
  have hneg : Expression .unary [⟨.minus, "-", ⟨1, 9⟩⟩, ⟨.ident, "x", ⟨1, 10⟩⟩]
      (.unary .neg (.name "x")) 2 :=
    .unary rfl hname
  have hproduct := Expression.binary (t := ⟨.asterisk, "*", ⟨1, 7⟩⟩) rfl rfl rfl htwo hneg
  have hdifference := Expression.binary (t := ⟨.minus, "-", ⟨1, 3⟩⟩) rfl rfl rfl hone hproduct
  have hderives := Statements.cons
    (.expr (hdifference.of_rank_le (by decide : Stratum.equality.rank ≤ _)) .omitted) (by simp) .nil
  refine ⟨_, _, rfl, rfl, by decide, hderives, ?_, ?_, ?_⟩
  · exact (read_ofList_accepts_iff_derives _ (by decide)).1.mpr ⟨_, 4, hderives, by decide⟩
  · exact (read_ofList_accepts_iff_derives _ (by decide)).2.1 _ 4 hderives (by decide)
  · intro q n hq
    exact (read_ofList_accepts_iff_derives _ (by decide)).2.2 q _ n 4 hq hderives

end LetLang
