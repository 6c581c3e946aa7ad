import LetLang.Proofs.Grammar.Basic
import LetLang.Proofs.Parser.Outcome

/-!
# What the parser accepts is derived by the grammar

If the parser reads a piece of syntax without an error, then the tokens it took
derive the tree it built, and the nesting of the derivation fits into the room
the parser had.  The argument follows the parser: one statement for each of its
functions, and an induction on the room that ties them together.
-/

namespace LetLang

/-! ## Binding strengths and strata -/

/-- The stratum of the expressions whose operators bind tighter than a given
strength. -/
def Precedence.stratum : Precedence → Stratum
  | lowest => .equality
  | equals => .comparison
  | lessGreater => .sum
  | sum => .product
  | product | unary | call => .unary

theorem lt_precedence_iff (weakest : Precedence) (op : BinaryOp) :
    weakest < op.precedence ↔ weakest.stratum.rank ≤ op.stratum.rank := by
  cases weakest <;> cases op <;> decide

theorem tighter?_stratum (op : BinaryOp) :
    op.stratum.tighter? = some op.precedence.stratum := by
  cases op <;> rfl

theorem rank_stratum_le_unary (weakest : Precedence) :
    weakest.stratum.rank ≤ Stratum.unary.rank := by
  cases weakest <;> decide

theorem BinaryOp.rank_stratum_lt_unary (op : BinaryOp) :
    op.stratum.rank < Stratum.unary.rank := by
  cases op <;> decide

namespace Parser

open Grammar

/-- What `expression` reads with some room left is an expression of the
grammar, and it stops where no operator goes on. -/
def SoundExpression (room : Nat) : Prop :=
  ∀ {weakest : Precedence} {s s' : TokenStream} {e : Expr},
    Reads (expression room weakest) s e s' →
      ∃ ts n, s = s'.prepend ts ∧ Expression weakest.stratum ts e n ∧ n ≤ room ∧
        EndsOperators weakest s'.head.kind

/-- What `block` reads from an opening brace on with some room left is a block
of the grammar. -/
def SoundBlock (room : Nat) : Prop :=
  ∀ {s s' : TokenStream} {b : Block}, s.head.kind = .lbrace →
    Reads (block room) s b s' →
      ∃ ts n, s = s'.prepend ts ∧ Braced ts b n ∧ n ≤ room

section Phrases

variable {room : Nat} (hexpression : SoundExpression room) (hblock : SoundBlock room)
include hexpression hblock

theorem conditional_sound
    {s s' : TokenStream} {i : Token} (hi : i.kind = .ifWord) {e : Expr}
    (h : Reads (conditional (expression room) (block room)) s e s') :
    ∃ ts n, s = s'.prepend ts ∧ Expression .primary (i :: ts) e n ∧ n ≤ room + 1 := by
  simp only [conditional, reads_bind_iff, reads_require_iff, reads_peek_iff] at h
  obtain ⟨t, s₁, hlparen, c, s₂, hc, u, s₃, hrparen, -, _, ⟨hbrace, rfl⟩, b, s₄, hb, _, _,
    ⟨rfl, rfl⟩, h⟩ := h
  obtain ⟨ht, rfl⟩ := hlparen.of_expect (by decide)
  obtain ⟨hu, rfl⟩ := hrparen.of_expect (by decide)
  obtain ⟨cs, m, rfl, hcs, hm, -⟩ := hexpression hc
  obtain ⟨bs, n, rfl, hbs, hn⟩ := hblock hbrace hb
  split at h
  · next helse =>
    simp only [reads_bind_iff, reads_require_iff] at h
    obtain ⟨w, s₅, hw, -, _, ⟨hbrace', rfl⟩, d, s₆, hd, h⟩ := h
    obtain ⟨rfl, rfl⟩ := reads_pure_iff.mp h
    obtain ⟨rfl, -⟩ := reads_next_iff.mp hw
    obtain ⟨ds, k, hs, hds, hk⟩ := hblock hbrace' hd
    have hsplit := hw.of_next (by rw [helse]; decide)
    refine ⟨_, _, ?_, .ifElse hi ht hcs hu hbs helse hds, ?_⟩
    · rw [hsplit, hs]
      simp
    · omega
  · obtain ⟨rfl, rfl⟩ := reads_pure_iff.mp h
    refine ⟨_, _, ?_, .ifThen hi ht hcs hu hbs, ?_⟩
    · simp
    · omega

theorem leading_sound
    {s s' : TokenStream} {e : Expr}
    (h : Reads (leading (expression room) (block room)) s e s') :
    ∃ ts n, s = s'.prepend ts ∧ Expression .unary ts e n ∧ n ≤ room + 1 := by
  rw [leading, reads_bind_iff] at h
  obtain ⟨t, s₁, hnext, h⟩ := h
  have hs (hkind : t.kind ≠ .eof) : s = s₁.prepend [t] := hnext.of_next hkind
  -- An atom is a primary expression, and so are a group and a conditional.
  have hprimary (ts : List Token) {n : Nat} (hts : s₁ = s'.prepend ts)
      (hkind : t.kind ≠ .eof) (hn : n ≤ room + 1)
      (he : Expression .primary (t :: ts) e n) :
      ∃ ts n, s = s'.prepend ts ∧ Expression .unary ts e n ∧ n ≤ room + 1 :=
    ⟨t :: ts, n, by rw [hs hkind, hts]; simp, .tighter rfl he, hn⟩
  have hunary {op : UnaryOp} (hop : UnaryOp.ofKind? t.kind = some op)
      (h : Reads (expression room .unary >>= fun e => pure (.unary op e)) s₁ e s') :
      ∃ ts n, s = s'.prepend ts ∧ Expression .unary ts e n ∧ n ≤ room + 1 := by
    simp only [reads_bind_iff, reads_pure_iff] at h
    obtain ⟨e, s₂, he, rfl, rfl⟩ := h
    obtain ⟨ts, n, hts, he, hn, -⟩ := hexpression he
    have hkind : t.kind ≠ .eof := by
      intro hkind
      rw [hkind] at hop
      cases hop
    exact ⟨t :: ts, 1 + n, by rw [hs hkind, hts]; simp, .unary hop he, by omega⟩
  split at h
  · next ht =>
    obtain ⟨rfl, rfl⟩ := reads_pure_iff.mp h
    exact hprimary [] rfl (by simp [ht]) (by omega) (.name ht)
  · next ht =>
    split at h
    · next v hv =>
      obtain ⟨rfl, rfl⟩ := reads_pure_iff.mp h
      exact hprimary [] rfl (by simp [ht]) (by omega) (.int ht (writes_of_parse?_eq_some hv))
    · exact absurd h not_reads_fail
  · next ht =>
    obtain ⟨rfl, rfl⟩ := reads_pure_iff.mp h
    exact hprimary [] rfl (by simp [ht]) (by omega) (.boolTrue ht)
  · next ht =>
    obtain ⟨rfl, rfl⟩ := reads_pure_iff.mp h
    exact hprimary [] rfl (by simp [ht]) (by omega) (.boolFalse ht)
  · next ht => exact hunary (by rw [ht]; rfl) h
  · next ht => exact hunary (by rw [ht]; rfl) h
  · next ht =>
    simp only [reads_bind_iff, reads_pure_iff] at h
    obtain ⟨e, s₂, he, u, s₃, hrparen, rfl, rfl⟩ := h
    obtain ⟨hu, rfl⟩ := hrparen.of_expect (by decide)
    obtain ⟨ts, n, hts, he, hn, -⟩ := hexpression he
    refine hprimary _ ?_ (by simp [ht]) ?_ (.group ht he hu)
    · rw [hts]
      simp
    · omega
  · next ht =>
    obtain ⟨ts, n, hts, he, hn⟩ := conditional_sound hexpression hblock ht h
    exact hprimary ts hts (by simp [ht]) hn he
  · exact absurd h not_reads_fail

omit hblock in
/-- The operators behind a left operand extend its derivation.  The operand lies
in a stratum `σ` that the loop has reached, and the next operator does not bind
tighter than the operators of `σ`. -/
theorem operators_sound
    {weakest : Precedence} {s s' : TokenStream} {σ : Stratum} {ls : List Token}
    {l e : Expr} {m : Nat}
    (hl : Expression σ ls l m) (hm : m ≤ room + 1)
    (hweakest : weakest.stratum.rank ≤ σ.rank)
    (hnext : ∀ op, BinaryOp.ofKind? s.head.kind = some op → op.stratum.rank ≤ σ.rank)
    (h : Reads (operators (expression room) weakest l) s e s') :
    ∃ ts n, s = s'.prepend ts ∧ Expression weakest.stratum (ls ++ ts) e n ∧
      n ≤ room + 1 ∧ EndsOperators weakest s'.head.kind := by
  induction hlength : s.tokens.length using Nat.strongRecOn generalizing s σ ls l m with
  | ind length ih =>
    obtain hends | ⟨op, hop, hlt⟩ := endsOperators_or_exists_op weakest s.head.kind
    · rw [reads_congr (operators_apply_of_ends hends), reads_pure_iff] at h
      obtain ⟨rfl, rfl⟩ := h
      exact ⟨[], m, rfl, by simpa using hl.of_rank_le hweakest, hm, hends⟩
    · rw [reads_congr (operators_apply_of_op (advances_expression room) hop hlt)] at h
      simp only [reads_bind_iff] at h
      obtain ⟨t, s₁, ht, r, s₂, hr, h⟩ := h
      obtain ⟨rfl, -⟩ := reads_next_iff.mp ht
      have hs := ht.of_next (by intro hkind; rw [hkind] at hop; cases hop)
      obtain ⟨rs, n, rfl, hrs, hn, hends⟩ := hexpression hr
      have hbinary : Expression op.stratum (ls ++ s.head :: rs) (.binary op l r)
          (max m (1 + n)) :=
        .binary ((lookup_binaryOperators _).trans hop) rfl (tighter?_stratum op)
          (hl.of_rank_le (hnext op hop)) hrs
      have hshorter : s₂.tokens.length < length := by
        rw [← hlength, hs]
        simp only [TokenStream.prepend, List.length_append, List.length_singleton]
        omega
      have hnext' : ∀ op', BinaryOp.ofKind? s₂.head.kind = some op' →
          op'.stratum.rank ≤ op.stratum.rank := by
        intro op' hop'
        have hloose := hends op' hop'
        rw [lt_precedence_iff] at hloose
        have hrank := Stratum.rank_of_tighter?_eq_some (tighter?_stratum op)
        omega
      obtain ⟨ts, k, rfl, he, hk, hstop⟩ := ih _ hshorter hbinary (by omega)
        ((lt_precedence_iff weakest op).mp hlt) hnext' h rfl
      refine ⟨s.head :: (rs ++ ts), k, ?_, by simpa using he, hk, hstop⟩
      rw [hs]
      simp

theorem expression_sound : SoundExpression (room + 1) := by
  intro weakest s s' e h
  change Reads (visit weakest >>= fun _ => leading (expression room) (block room) >>= fun l =>
    operators (expression room) weakest l) s e s' at h
  simp only [reads_bind_iff, reads_visit_iff] at h
  obtain ⟨-, _, rfl, l, s₁, hl, h⟩ := h
  obtain ⟨ls, m, rfl, hl, hm⟩ := leading_sound hexpression hblock hl
  obtain ⟨ts, n, rfl, he, hn, hends⟩ := operators_sound hexpression hl hm
    (rank_stratum_le_unary weakest) (fun op _ => Nat.le_of_lt op.rank_stratum_lt_unary) h
  exact ⟨ls ++ ts, n, by simp, he, hn, hends⟩

omit hblock in
theorem value_sound
    {f : Expr → Stmt} {s s' : TokenStream} {st : Stmt}
    (h : Reads (expression room .lowest >>= fun e => skipIf .semicolon >>= fun _ =>
      pure (f e)) s st s') :
    ∃ e ts us isOpen n, st = f e ∧ s = s'.prepend (ts ++ us) ∧
      Expression .equality ts e n ∧ Ending us isOpen ∧ n ≤ room ∧
      (isOpen = true → s'.head.kind ≠ .minus) := by
  simp only [reads_bind_iff, reads_skipIf_iff, reads_pure_iff] at h
  obtain ⟨e, s₁, he, -, _, rfl, rfl, rfl⟩ := h
  obtain ⟨ts, n, rfl, he, hn, hends⟩ := hexpression he
  by_cases hsemicolon : s₁.head.kind = .semicolon
  · refine ⟨e, ts, [s₁.head], false, n, rfl, ?_, he, .semicolon hsemicolon, hn, by simp⟩
    have hs₁ := TokenStream.prepend_head_tail (s := s₁) (by rw [hsemicolon]; decide)
    rw [if_pos hsemicolon, ← TokenStream.prepend_prepend, hs₁]
  · refine ⟨e, ts, [], true, n, rfl, ?_, he, .omitted, hn, ?_⟩
    · rw [if_neg hsemicolon, List.append_nil]
    · intro _ hminus
      rw [if_neg hsemicolon] at hminus
      rw [hminus] at hends
      exact hends .sub rfl (by decide)

theorem statement_sound
    {s s' : TokenStream} {st : Stmt}
    (h : Reads (statement (expression room) (block room)) s st s') :
    ∃ ts isOpen n, s = s'.prepend ts ∧ Statement ts st isOpen n ∧ n ≤ room ∧
      (isOpen = true → s'.head.kind ≠ .minus) := by
  rw [statement, reads_congr (peek_bind_apply _ s)] at h
  split at h
  · next hkind =>
    rw [reads_bind_iff] at h
    obtain ⟨k, s₁, hk, h⟩ := h
    rw [reads_bind_iff] at h
    obtain ⟨x, s₂, hident, h⟩ := h
    rw [reads_bind_iff] at h
    obtain ⟨a, s₃, hassign, h⟩ := h
    obtain ⟨rfl, -⟩ := reads_next_iff.mp hk
    have hs := hk.of_next (by rw [hkind]; decide)
    obtain ⟨hx, rfl⟩ := hident.of_expect (by decide)
    obtain ⟨ha, rfl⟩ := hassign.of_expect (by decide)
    obtain ⟨e, ts, us, isOpen, n, rfl, rfl, he, hus, hn, hminus⟩ :=
      value_sound hexpression h
    refine ⟨_, isOpen, n, ?_, .bind hkind hx ha he hus, hn, hminus⟩
    rw [hs]
    simp
  · next hkind =>
    rw [reads_bind_iff] at h
    obtain ⟨k, s₁, hk, h⟩ := h
    obtain ⟨rfl, -⟩ := reads_next_iff.mp hk
    have hs := hk.of_next (by rw [hkind]; decide)
    obtain ⟨e, ts, us, isOpen, n, rfl, rfl, he, hus, hn, hminus⟩ :=
      value_sound hexpression h
    refine ⟨_, isOpen, n, ?_, .ret hkind he hus, hn, hminus⟩
    rw [hs]
    simp
  · next hkind =>
    simp only [reads_bind_iff, reads_pure_iff] at h
    obtain ⟨b, s₁, hb, rfl, rfl⟩ := h
    obtain ⟨ts, n, rfl, hb, hn⟩ := hblock hkind hb
    exact ⟨ts, false, n, rfl, .block hb, hn, by simp⟩
  · obtain ⟨e, ts, us, isOpen, n, rfl, rfl, he, hus, hn, hminus⟩ :=
      value_sound hexpression h
    exact ⟨_, isOpen, n, rfl, .expr he hus, hn, hminus⟩

theorem sequence_sound
    {stops : TokenKind → Bool} (heof : stops .eof = true)
    {s s' : TokenStream} {b : List Stmt}
    (h : Reads (sequence (statement (expression room) (block room)) stops) s b s') :
    ∃ ts n, s = s'.prepend ts ∧ Statements ts b n ∧ n ≤ room ∧
      stops s'.head.kind = true := by
  induction hlength : s.tokens.length using Nat.strongRecOn generalizing s b with
  | ind length ih =>
    cases hs : stops s.head.kind with
    | true =>
        rw [reads_congr (sequence_apply_of_stops hs), reads_pure_iff] at h
        obtain ⟨rfl, rfl⟩ := h
        exact ⟨[], 0, rfl, .nil, Nat.zero_le _, hs⟩
    | false =>
        have hshorter := length_rest_lt_of_not_stops (consumes_statement room) heof hs
        rw [reads_congr (sequence_apply_of_not_stops (consumes_statement room) heof hs)] at h
        simp only [reads_bind_iff, reads_pure_iff,
          reads_orSkip_iff (inherited_reportsFailure.statementWithin room)] at h
        obtain ⟨_, s₁, ⟨first, rfl, hfirst⟩, others, s₂, hothers, rfl, rfl⟩ := h
        have hrest : (orSkip (statement (expression room) (block room)) s).rest = s₁ :=
          hfirst.2.1
        rw [hrest, hlength] at hshorter
        obtain ⟨us, n, rfl, hb, hn, hstop⟩ := ih _ hshorter hothers rfl
        obtain ⟨ts, isOpen, m, rfl, hst, hm, hminus⟩ :=
          statement_sound hexpression hblock hfirst
        have hus : isOpen = true → ∀ u ∈ us.head?, u.kind ≠ .minus := by
          intro hopen u hu
          cases us with
          | nil => cases hu
          | cons v us =>
              obtain rfl : v = u := Option.some.inj hu
              exact hminus hopen
        exact ⟨ts ++ us, max m n, by simp, .cons hst hus hb, by omega, hstop⟩

theorem block_sound : SoundBlock (room + 1) := by
  intro s s' b hbrace h
  rw [block, reads_bind_iff] at h
  obtain ⟨t, s₁, ht, h⟩ := h
  rw [reads_bind_iff] at h
  obtain ⟨body, s₂, hbody, h⟩ := h
  rw [reads_bind_iff] at h
  obtain ⟨u, s₃, hu, h⟩ := h
  obtain ⟨ts, n, rfl, hb, hn, hstop⟩ :=
    sequence_sound hexpression hblock rfl hbody
  obtain ⟨rfl, -⟩ := reads_next_iff.mp ht
  have hs := ht.of_next (by rw [hbrace]; decide)
  split at h
  · next hclosing =>
    obtain ⟨_, _, hreport, -⟩ := reads_bind_iff.mp h
    exact absurd hreport not_reads_report
  · next hclosing =>
    have hclosing : u.kind = .rbrace := Decidable.not_not.mp hclosing
    have hs₂ := hu.of_next (by rw [hclosing]; decide)
    obtain ⟨rfl, rfl⟩ := reads_pure_iff.mp h
    refine ⟨_, 1 + n, ?_, .braces hbrace hb hclosing, by omega⟩
    rw [hs, hs₂]
    simp

end Phrases

theorem soundExpression_and_soundBlock (room : Nat) :
    SoundExpression room ∧ SoundBlock room := by
  induction room with
  | zero =>
      exact ⟨fun h => absurd h not_reads_refuse, fun _ h => absurd h not_reads_refuse⟩
  | succ room ih =>
      exact ⟨expression_sound ih.1 ih.2, block_sound ih.1 ih.2⟩

/-- A program that is read without an error up to the end of its tokens is
derived by the grammar. -/
theorem program_sound
    {room : Nat} {s s' : TokenStream} {p : Program}
    (h : Reads (program room) s p s') :
    ∃ ts n, s = s'.prepend ts ∧ Derives ts p n ∧ n ≤ room ∧ s'.head.kind = .eof := by
  obtain ⟨hexpression, hblock⟩ := soundExpression_and_soundBlock room
  rw [program, reads_bind_iff] at h
  obtain ⟨body, s₁, hbody, h⟩ := h
  obtain ⟨rfl, rfl⟩ := reads_pure_iff.mp h
  obtain ⟨ts, n, rfl, hb, hn, hstop⟩ :=
    sequence_sound hexpression hblock rfl hbody
  exact ⟨ts, n, rfl, hb, hn, of_decide_eq_true hstop⟩

end Parser
end LetLang
