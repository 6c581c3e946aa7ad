import LetLang.Proofs.Grammar.Soundness

/-!
# What the grammar derives is read by the parser

Tokens that derive a tree are read as that tree if the nesting of the derivation
fits into the room of the parser, and otherwise the parser refuses them because
of their nesting and finds no other error before.  What comes behind the tokens
has to be something that does not continue them; the conditions on the next
token are part of every statement.

A chain of operators is derived with its last operator outermost and read with
its first operator innermost.  The statement about expressions therefore speaks
about the whole loop: the tokens of a left operand, followed by whatever the loop
makes of the rest.
-/

namespace LetLang
namespace Grammar

/-! ## Next tokens -/

/-- A token of this kind behind an expression of the stratum does not belong to
one of its operands. -/
def Follows (σ : Stratum) (kind : TokenKind) : Prop :=
  kind ≠ .elseWord ∧ ∀ op, BinaryOp.ofKind? kind = some op → op.stratum.rank ≤ σ.rank

/-- A token of this kind behind an open statement does not belong to it. -/
def FollowsStatement (kind : TokenKind) : Prop :=
  kind ≠ .elseWord ∧ kind ≠ .semicolon ∧ BinaryOp.ofKind? kind = none

instance (kind : TokenKind) : Decidable (FollowsStatement kind) :=
  inferInstanceAs (Decidable (_ ∧ _ ∧ _))

theorem Follows.of_rank_le
    {σ τ : Stratum} {kind : TokenKind} (h : Follows σ kind) (hστ : σ.rank ≤ τ.rank) :
    Follows τ kind :=
  ⟨h.1, fun op hop => Nat.le_trans (h.2 op hop) hστ⟩

theorem follows_of_ofKind?_eq_none
    {σ : Stratum} {kind : TokenKind} (helse : kind ≠ .elseWord)
    (hop : BinaryOp.ofKind? kind = none) : Follows σ kind := by
  refine ⟨helse, ?_⟩
  intro op hop'
  rw [hop] at hop'
  cases hop'

theorem follows_of_ofKind?_eq_some
    {kind : TokenKind} {op : BinaryOp} (hop : BinaryOp.ofKind? kind = some op) :
    Follows op.stratum kind := by
  constructor
  · rintro rfl
    cases hop
  · intro op' hop'
    rw [hop] at hop'
    cases hop'
    exact Nat.le_refl _

theorem followsStatement_of_startsStatement
    {kind : TokenKind} (h : startsStatement kind = true) (hminus : kind ≠ .minus) :
    FollowsStatement kind := by
  revert h hminus
  cases kind <;> decide

end Grammar

namespace Parser

open Grammar

theorem endsOperators_of_ofKind?_eq_none
    {weakest : Precedence} {kind : TokenKind} (hop : BinaryOp.ofKind? kind = none) :
    EndsOperators weakest kind := by
  intro op hop'
  rw [hop] at hop'
  cases hop'

theorem endsOperators_unary (kind : TokenKind) : EndsOperators .unary kind := by
  intro op _ hlt
  rw [lt_precedence_iff] at hlt
  exact absurd op.rank_stratum_lt_unary (Nat.not_lt.mpr hlt)

theorem follows_rparen
    {σ : Stratum} {u : Token} (hu : u.kind = .rparen) : Follows σ u.kind :=
  follows_of_ofKind?_eq_none (by rw [hu]; decide) (by rw [hu]; rfl)

theorem endsOperators_rparen
    {weakest : Precedence} {u : Token} (hu : u.kind = .rparen) :
    EndsOperators weakest u.kind :=
  endsOperators_of_ofKind?_eq_none (by rw [hu]; rfl)

theorem endsOperators_precedence
    {op : BinaryOp} {kind : TokenKind} (h : Follows op.stratum kind) :
    EndsOperators op.precedence kind := by
  intro op' hop' hlt
  have hle := h.2 op' hop'
  have hrank := Stratum.rank_of_tighter?_eq_some (tighter?_stratum op)
  rw [lt_precedence_iff] at hlt
  omega

/-! ## Expressions -/

/-- The loop that reads an expression whose left end are the tokens `ts` of
`e` goes on as if it had `e` as its left operand. -/
def CompleteExpression (σ : Stratum) (ts : List Token) (e : Expr) (n : Nat) : Prop :=
  ∀ {room : Nat} {weakest : Precedence} {fits : Prop} {b : Expr} {s' s'' : TokenStream},
    weakest.stratum.rank ≤ σ.rank → Follows σ s'.head.kind →
    ReadsIf fits (operators (expression room) weakest e) s' b s'' →
    ReadsIf (n ≤ room + 1 ∧ fits) (expression (room + 1) weakest) (s'.prepend ts) b s''

/-- The block parser reads the tokens `ts` as the block `b`. -/
def CompleteBlock (ts : List Token) (b : Block) (n : Nat) : Prop :=
  ∀ {room : Nat} {s' : TokenStream}, ReadsIf (n ≤ room) (block room) (s'.prepend ts) b s'

theorem CompleteExpression.readsIf
    {σ : Stratum} {ts : List Token} {e : Expr} {n : Nat}
    (he : CompleteExpression σ ts e n) (hn : 0 < n)
    {room : Nat} {weakest : Precedence} {s' : TokenStream}
    (hweakest : weakest.stratum.rank ≤ σ.rank) (hfollows : Follows σ s'.head.kind)
    (hends : EndsOperators weakest s'.head.kind) :
    ReadsIf (n ≤ room) (expression room weakest) (s'.prepend ts) e s' := by
  cases room with
  | zero => exact ⟨fun hzero => absurd hn (by omega), fun _ => refuses_refuse _⟩
  | succ room =>
      have hstop : ReadsIf True (operators (expression room) weakest e) s' e s' :=
        .of_reads ((reads_congr (operators_apply_of_ends hends)).mpr
          (reads_pure_iff.mpr ⟨rfl, rfl⟩))
      exact (he hweakest hfollows hstop).congr (iff_of_eq (and_true _)).symm

theorem completeExpression_of_leading
    {σ : Stratum} {ts : List Token} {e : Expr} {n : Nat}
    (h : ∀ {room : Nat} {s' : TokenStream}, s'.head.kind ≠ .elseWord →
      ReadsIf (n ≤ room + 1) (leading (expression room) (block room)) (s'.prepend ts) e s') :
    CompleteExpression σ ts e n := by
  intro room weakest fits b s' s'' _ hfollows hoperators
  exact .bind_of_reads (a := ()) (reads_visit_iff.mpr rfl) ((h hfollows.1).bind hoperators)

theorem CompleteExpression.binary
    {σ τ : Stratum} {op : BinaryOp} {t : Token} {ls rs : List Token} {l r : Expr} {m n : Nat}
    (ht : BinaryOp.ofKind? t.kind = some op) (hσ : op.stratum = σ)
    (hστ : σ.tighter? = some τ)
    (hl : CompleteExpression σ ls l m) (hr : CompleteExpression τ rs r n) (hn : 0 < n) :
    CompleteExpression σ (ls ++ t :: rs) (.binary op l r) (max m (1 + n)) := by
  subst hσ
  intro room weakest fits b s' s'' hweakest hfollows hoperators
  have hrank := Stratum.rank_of_tighter?_eq_some hστ
  have hτ : τ = op.precedence.stratum :=
    Option.some.inj (hστ.symm.trans (tighter?_stratum op))
  have hright : ReadsIf (n ≤ room) (expression room op.precedence) (s'.prepend rs) r s' :=
    hr.readsIf hn (Nat.le_of_eq (by rw [hτ])) (hfollows.of_rank_le (by omega))
      (endsOperators_precedence hfollows)
  have hstep : ReadsIf (n ≤ room ∧ fits) (operators (expression room) weakest l)
      (s'.prepend (t :: rs)) b s'' := by
    refine ReadsIf.congr_apply ?_ (operators_apply_of_op (advances_expression room) ht
      ((lt_precedence_iff weakest op).mpr hweakest))
    exact .bind_of_reads (reads_next_iff.mpr ⟨rfl, rfl⟩) (hright.bind hoperators)
  have hoperator : Follows op.stratum (s'.prepend (t :: rs)).head.kind :=
    follows_of_ofKind?_eq_some ht
  have hleft := hl hweakest hoperator hstep
  have hfits : max m (1 + n) ≤ room + 1 ↔ m ≤ room + 1 ∧ n ≤ room := by omega
  rw [TokenStream.prepend_prepend] at hleft
  exact hleft.congr (by rw [hfits, and_assoc])

theorem Reads.of_head
    {t : Token} {ts : List Token} {s : TokenStream} :
    Reads next (s.prepend (t :: ts)) t (s.prepend ts) :=
  reads_next_iff.mpr ⟨rfl, rfl⟩

theorem reads_expect_head
    {kind : TokenKind} {t : Token} (ht : t.kind = kind) {ts : List Token} {s : TokenStream} :
    Reads (expect kind) (s.prepend (t :: ts)) t (s.prepend ts) :=
  reads_expect_iff.mpr ⟨ht, rfl, rfl⟩

theorem reads_require_braced
    {bs : List Token} {b : Block} {n : Nat} (hb : Braced bs b n) {s : TokenStream} :
    Reads (require .lbrace) (s.prepend bs) () (s.prepend bs) := by
  obtain ⟨t, us, rfl, ht⟩ := hb.exists_head
  exact reads_require_iff.mpr ⟨ht, rfl⟩

section Leading

variable {room : Nat} {s' : TokenStream} {ts : List Token} {e : Expr} {n : Nat}

theorem leading_complete_atom
    {t : Token} (h : Reads (leading (expression room) (block room)) (s'.prepend [t]) e s') :
    ReadsIf (1 ≤ room + 1) (leading (expression room) (block room)) (s'.prepend [t]) e s' :=
  (ReadsIf.of_reads h).congr (by simp)

theorem leading_complete_unary
    {op : UnaryOp} {t : Token} (ht : UnaryOp.ofKind? t.kind = some op)
    (he : CompleteExpression .unary ts e n) (hn : 0 < n) (hs' : s'.head.kind ≠ .elseWord) :
    ReadsIf (1 + n ≤ room + 1) (leading (expression room) (block room))
      (s'.prepend (t :: ts)) (.unary op e) s' := by
  have hfollows : Follows .unary s'.head.kind :=
    ⟨hs', fun op _ => Nat.le_of_lt op.rank_stratum_lt_unary⟩
  have hoperand : ReadsIf (n ≤ room) (expression room .unary) (s'.prepend ts) e s' :=
    he.readsIf hn (Nat.le_refl _) hfollows (endsOperators_unary _)
  have hresult : ReadsIf (n ≤ room)
      (expression room .unary >>= fun e => pure (Expr.unary op e)) (s'.prepend ts)
      (Expr.unary op e) s' :=
    hoperand.bind_reads (reads_pure_iff.mpr ⟨rfl, rfl⟩)
  refine ReadsIf.congr (.bind_of_reads Reads.of_head ?_)
    (show 1 + n ≤ room + 1 ↔ n ≤ room by omega)
  cases hkind : t.kind <;> rw [hkind] at ht <;> cases ht <;> exact hresult

theorem leading_complete_group
    {t u : Token} (ht : t.kind = .lparen) (he : CompleteExpression .equality ts e n)
    (hn : 0 < n) (hu : u.kind = .rparen) :
    ReadsIf (1 + n ≤ room + 1) (leading (expression room) (block room))
      (s'.prepend (t :: (ts ++ [u]))) e s' := by
  have hinner : ReadsIf (n ≤ room) (expression room .lowest)
      ((s'.prepend [u]).prepend ts) e (s'.prepend [u]) :=
    he.readsIf hn (Nat.le_refl _) (follows_rparen hu) (endsOperators_rparen hu)
  rw [TokenStream.prepend_prepend] at hinner
  refine ReadsIf.congr (.bind_of_reads Reads.of_head ?_)
    (show 1 + n ≤ room + 1 ↔ n ≤ room by omega)
  simp only [ht]
  refine hinner.bind_reads ?_
  simp [hu]

theorem conditional_complete
    {t u : Token} {cs bs : List Token} {c : Expr} {b : Block} {m : Nat}
    (ht : t.kind = .lparen) (hc : CompleteExpression .equality cs c m) (hm : 0 < m)
    (hu : u.kind = .rparen) (hb : Braced bs b n) (hblock : CompleteBlock bs b n)
    {fits : Prop} {s'' : TokenStream}
    (hrest : ReadsIf fits
      (do
        if (← peek) = .elseWord then
          let _ ← next
          require .lbrace
          let alternative ← block room
          pure (.ifElse c b alternative)
        else
          pure (.ifThen c b)) s' e s'') :
    ReadsIf (m ≤ room ∧ n ≤ room ∧ fits) (conditional (expression room) (block room))
      (s'.prepend (t :: (cs ++ u :: bs))) e s'' := by
  have hcondition : ReadsIf (m ≤ room) (expression room .lowest)
      ((s'.prepend (u :: bs)).prepend cs) c (s'.prepend (u :: bs)) :=
    hc.readsIf hm (Nat.le_refl _) (follows_rparen hu) (endsOperators_rparen hu)
  rw [TokenStream.prepend_prepend] at hcondition
  refine .bind_of_reads (reads_expect_head ht) (hcondition.bind ?_)
  refine .bind_of_reads (reads_expect_head hu) ?_
  exact .bind_of_reads (reads_require_braced hb) (hblock.bind hrest)

theorem leading_complete_ifThen
    {i t u : Token} {cs bs : List Token} {c : Expr} {b : Block} {m : Nat}
    (hi : i.kind = .ifWord) (ht : t.kind = .lparen)
    (hc : CompleteExpression .equality cs c m) (hm : 0 < m) (hu : u.kind = .rparen)
    (hb : Braced bs b n) (hblock : CompleteBlock bs b n)
    (hs' : s'.head.kind ≠ .elseWord) :
    ReadsIf (max (1 + m) (1 + n) ≤ room + 1) (leading (expression room) (block room))
      (s'.prepend (i :: t :: (cs ++ u :: bs))) (.ifThen c b) s' := by
  refine ReadsIf.congr (.bind_of_reads Reads.of_head ?_)
    (show max (1 + m) (1 + n) ≤ room + 1 ↔ m ≤ room ∧ n ≤ room ∧ 0 ≤ room by omega)
  simp only [hi]
  refine conditional_complete ht hc hm hu hb hblock ?_
  refine ReadsIf.congr (.of_reads ?_) (iff_of_true (Nat.zero_le _) trivial)
  rw [reads_congr (peek_bind_apply _ s'), if_neg hs', reads_pure_iff]
  exact ⟨rfl, rfl⟩

theorem leading_complete_ifElse
    {i t u w : Token} {cs bs ds : List Token} {c : Expr} {b d : Block} {m k : Nat}
    (hi : i.kind = .ifWord) (ht : t.kind = .lparen)
    (hc : CompleteExpression .equality cs c m) (hm : 0 < m) (hu : u.kind = .rparen)
    (hb : Braced bs b n) (hblock : CompleteBlock bs b n) (hw : w.kind = .elseWord)
    (hd : Braced ds d k) (hblock' : CompleteBlock ds d k) :
    ReadsIf (max (1 + m) (max (1 + n) (1 + k)) ≤ room + 1)
      (leading (expression room) (block room))
      (s'.prepend (i :: t :: (cs ++ u :: (bs ++ w :: ds)))) (.ifElse c b d) s' := by
  refine ReadsIf.congr (.bind_of_reads Reads.of_head ?_)
    (show max (1 + m) (max (1 + n) (1 + k)) ≤ room + 1 ↔ m ≤ room ∧ n ≤ room ∧ k ≤ room
      by omega)
  simp only [hi]
  have hstream : s'.prepend (t :: (cs ++ u :: (bs ++ w :: ds))) =
      (s'.prepend (w :: ds)).prepend (t :: (cs ++ u :: bs)) := by
    simp
  rw [hstream]
  refine conditional_complete ht hc hm hu hb hblock ?_
  refine ReadsIf.congr_apply ?_ (peek_bind_apply _ _)
  rw [if_pos (show (s'.prepend (w :: ds)).head.kind = .elseWord from hw)]
  refine .bind_of_reads Reads.of_head ?_
  exact .bind_of_reads (reads_require_braced hd)
    (hblock'.bind_reads (reads_pure_iff.mpr ⟨rfl, rfl⟩))

end Leading

/-! ## Statements -/

section Statements

variable {room : Nat} {s' : TokenStream} {ts us : List Token} {n : Nat}

theorem value_complete
    {e : Expr} {f : Expr → Stmt} {isOpen : Bool}
    (he : CompleteExpression .equality ts e n) (hn : 0 < n) (hus : Ending us isOpen)
    (hs' : isOpen = true → FollowsStatement s'.head.kind) :
    ReadsIf (n ≤ room)
      (expression room .lowest >>= fun e => skipIf .semicolon >>= fun _ => pure (f e))
      (s'.prepend (ts ++ us)) (f e) s' := by
  rw [← TokenStream.prepend_prepend]
  cases hus with
  | @semicolon t ht =>
      have hop : BinaryOp.ofKind? t.kind = none := by rw [ht]; rfl
      refine ReadsIf.bind_reads (he.readsIf hn (Nat.le_refl _)
        (follows_of_ofKind?_eq_none (by simp [ht]) hop)
        (endsOperators_of_ofKind?_eq_none hop)) ?_
      simp [ht]
  | omitted =>
      obtain ⟨helse, hsemicolon, hop⟩ := hs' rfl
      refine ReadsIf.bind_reads (he.readsIf hn (Nat.le_refl _)
        (follows_of_ofKind?_eq_none helse hop) (endsOperators_of_ofKind?_eq_none hop)) ?_
      simp [hsemicolon]

/-- The statement parser reads the tokens `ts` as the statement `st`. -/
def CompleteStatement (ts : List Token) (st : Stmt) (isOpen : Bool) (n : Nat) : Prop :=
  ∀ {room : Nat} {s' : TokenStream}, (isOpen = true → FollowsStatement s'.head.kind) →
    ReadsIf (n ≤ room) (statement (expression room) (block room)) (s'.prepend ts) st s'

theorem completeStatement_bind
    {k x a : Token} {e : Expr} {isOpen : Bool}
    (hk : k.kind = .letWord) (hx : x.kind = .ident) (ha : a.kind = .assign)
    (he : CompleteExpression .equality ts e n) (hn : 0 < n) (hus : Ending us isOpen) :
    CompleteStatement (k :: x :: a :: (ts ++ us)) (.bind x.literal e) isOpen n := by
  intro room s' hs'
  refine ReadsIf.congr_apply ?_ (peek_bind_apply _ _)
  simp only [TokenStream.head_prepend_cons, hk]
  exact .bind_of_reads Reads.of_head <| .bind_of_reads (reads_expect_head hx) <|
    .bind_of_reads (reads_expect_head ha) <| value_complete he hn hus hs'

theorem completeStatement_ret
    {k : Token} {e : Expr} {isOpen : Bool} (hk : k.kind = .returnWord)
    (he : CompleteExpression .equality ts e n) (hn : 0 < n) (hus : Ending us isOpen) :
    CompleteStatement (k :: (ts ++ us)) (.ret e) isOpen n := by
  intro room s' hs'
  refine ReadsIf.congr_apply ?_ (peek_bind_apply _ _)
  simp only [TokenStream.head_prepend_cons, hk]
  exact .bind_of_reads Reads.of_head <| value_complete he hn hus hs'

theorem completeStatement_expr
    {e : Expr} {isOpen : Bool} (htokens : Expression .equality ts e n)
    (he : CompleteExpression .equality ts e n) (hn : 0 < n) (hus : Ending us isOpen) :
    CompleteStatement (ts ++ us) (.expr e) isOpen n := by
  intro room s' hs'
  have hvalue : ReadsIf (n ≤ room)
      (expression room .lowest >>= fun e => skipIf .semicolon >>= fun _ => pure (Stmt.expr e))
      (s'.prepend (ts ++ us)) (.expr e) s' :=
    value_complete he hn hus hs'
  refine ReadsIf.congr_apply ?_ (peek_bind_apply _ _)
  obtain ⟨t, vs, rfl, ht⟩ := htokens.exists_head
  have hhead : (s'.prepend (t :: vs ++ us)).head.kind = t.kind := rfl
  rw [hhead]
  -- The first token is none of those that the parser tells from expressions.
  split
  · next hkind =>
    rw [hkind] at ht
    cases ht
  · next hkind =>
    rw [hkind] at ht
    cases ht
  · next hkind =>
    rw [hkind] at ht
    cases ht
  · exact hvalue

theorem completeStatement_block
    {b : Block} (htokens : Braced ts b n) (hb : CompleteBlock ts b n) :
    CompleteStatement ts (.block b) false n := by
  intro room s' _
  refine ReadsIf.congr_apply ?_ (peek_bind_apply _ _)
  have hblock : ReadsIf (n ≤ room) (block room) (s'.prepend ts) b s' := hb
  obtain ⟨t, vs, rfl, ht⟩ := htokens.exists_head
  simp only [TokenStream.head_prepend_cons, ht]
  exact hblock.bind_reads (reads_pure_iff.mpr ⟨rfl, rfl⟩)

/-- A sequence of statements ends before a token that belongs to none of them. -/
structure EndsSequence (stops : TokenKind → Bool) : Prop where
  eof : stops .eof = true
  starts : ∀ kind, startsStatement kind = true → stops kind = false
  follows : ∀ kind, stops kind = true → FollowsStatement kind

theorem endsSequence_endsBlock : EndsSequence endsBlock where
  eof := rfl
  starts kind := by cases kind <;> decide
  follows kind := by cases kind <;> decide

theorem endsSequence_endsProgram : EndsSequence endsProgram where
  eof := rfl
  starts kind := by cases kind <;> decide
  follows kind := by cases kind <;> decide

/-- The loop over statements reads the tokens `ts` as the statements `b`. -/
def CompleteSequence (ts : List Token) (b : List Stmt) (n : Nat) : Prop :=
  ∀ {room : Nat} {stops : TokenKind → Bool} {s' : TokenStream},
    EndsSequence stops → stops s'.head.kind = true →
    ReadsIf (n ≤ room) (sequence (statement (expression room) (block room)) stops)
      (s'.prepend ts) b s'

theorem completeSequence_nil : CompleteSequence [] [] 0 := by
  intro room stops s' _ hs'
  refine ReadsIf.congr (.of_reads ?_) (iff_of_true (Nat.zero_le _) trivial)
  rw [TokenStream.prepend_nil, reads_congr (sequence_apply_of_stops hs'), reads_pure_iff]
  exact ⟨rfl, rfl⟩

theorem followsStatement_head_prepend
    {b : List Stmt} (hb : Statements us b n)
    (hminus : ∀ u ∈ us.head?, u.kind ≠ .minus) (hs' : FollowsStatement s'.head.kind) :
    FollowsStatement (s'.prepend us).head.kind := by
  cases hb with
  | nil => exact hs'
  | cons hst _ _ =>
      obtain ⟨t, vs, rfl, ht⟩ := hst.exists_head
      exact followsStatement_of_startsStatement ht (hminus t rfl)

theorem completeSequence_cons
    {st : Stmt} {b : List Stmt} {isOpen : Bool} {m : Nat}
    (htokens : Statement ts st isOpen m) (hst : CompleteStatement ts st isOpen m)
    (hminus : isOpen = true → ∀ u ∈ us.head?, u.kind ≠ .minus)
    (husTokens : Statements us b n) (hb : CompleteSequence us b n) :
    CompleteSequence (ts ++ us) (st :: b) (max m n) := by
  intro room stops s' hstops hs'
  have hfirst : ReadsIf (m ≤ room) (statement (expression room) (block room))
      ((s'.prepend us).prepend ts) st (s'.prepend us) :=
    hst fun hopen =>
      followsStatement_head_prepend husTokens (hminus hopen) (hstops.follows _ hs')
  have hothers : ReadsIf (n ≤ room)
      (sequence (statement (expression room) (block room)) stops) (s'.prepend us) b s' :=
    hb hstops hs'
  rw [← TokenStream.prepend_prepend]
  have hhead : stops ((s'.prepend us).prepend ts).head.kind = false := by
    obtain ⟨t, vs, rfl, ht⟩ := htokens.exists_head
    exact hstops.starts _ ht
  refine ReadsIf.congr_apply ?_
    (sequence_apply_of_not_stops (consumes_statement room) hstops.eof hhead)
  refine ReadsIf.congr (hfirst.orSkip.bind (hothers.bind_reads ?_)) (by omega)
  exact reads_pure_iff.mpr ⟨rfl, rfl⟩

theorem completeBlock_braces
    {t u : Token} {b : List Stmt} (hb : CompleteSequence ts b n)
    (hu : u.kind = .rbrace) : CompleteBlock (t :: (ts ++ [u])) b (1 + n) := by
  intro room s'
  cases room with
  | zero => exact ⟨fun hzero => absurd hzero (by omega), fun _ => refuses_refuse _⟩
  | succ room =>
      have hbody : ReadsIf (n ≤ room)
          (sequence (statement (expression room) (block room)) endsBlock)
          ((s'.prepend [u]).prepend ts) b (s'.prepend [u]) :=
        hb endsSequence_endsBlock (by simp [hu, endsBlock])
      rw [TokenStream.prepend_prepend] at hbody
      refine ReadsIf.congr (.bind_of_reads Reads.of_head (hbody.bind_reads ?_)) (by omega)
      refine reads_bind_iff.mpr ⟨u, s', Reads.of_head, ?_⟩
      simp [hu]

end Statements

/-! ## All derivations -/

mutual

theorem complete_expression :
    {σ : Stratum} → {ts : List Token} → {e : Expr} → {n : Nat} → Expression σ ts e n →
      CompleteExpression σ ts e n
  | _, _, _, _, .tighter hστ he => fun hweakest hfollows hoperators => by
      have hrank := Stratum.rank_of_tighter?_eq_some hστ
      exact complete_expression he (by omega) (hfollows.of_rank_le (by omega)) hoperators
  | _, _, _, _, .binary ht hσ hστ hl hr =>
      CompleteExpression.binary ((lookup_binaryOperators _).symm.trans ht) hσ hστ
        (complete_expression hl) (complete_expression hr) hr.nesting_pos
  | _, _, _, _, .unary ht he =>
      completeExpression_of_leading fun hs' =>
        leading_complete_unary ht (complete_expression he) he.nesting_pos hs'
  | _, _, _, _, .name ht =>
      completeExpression_of_leading fun _ =>
        leading_complete_atom <| reads_bind_iff.mpr ⟨_, _, Reads.of_head, by simp [ht]⟩
  | _, _, _, _, .int ht hv =>
      completeExpression_of_leading fun _ =>
        leading_complete_atom <| reads_bind_iff.mpr ⟨_, _, Reads.of_head, by simp [ht, hv.parse?_eq_some]⟩
  | _, _, _, _, .boolTrue ht =>
      completeExpression_of_leading fun _ =>
        leading_complete_atom <| reads_bind_iff.mpr ⟨_, _, Reads.of_head, by simp [ht]⟩
  | _, _, _, _, .boolFalse ht =>
      completeExpression_of_leading fun _ =>
        leading_complete_atom <| reads_bind_iff.mpr ⟨_, _, Reads.of_head, by simp [ht]⟩
  | _, _, _, _, .group ht he hu =>
      completeExpression_of_leading fun _ =>
        leading_complete_group ht (complete_expression he) he.nesting_pos hu
  | _, _, _, _, .ifThen hi ht hc hu hb =>
      completeExpression_of_leading fun hs' =>
        leading_complete_ifThen hi ht (complete_expression hc) hc.nesting_pos hu hb
          (complete_block hb) hs'
  | _, _, _, _, .ifElse hi ht hc hu hb hw hd =>
      completeExpression_of_leading fun _ =>
        leading_complete_ifElse hi ht (complete_expression hc) hc.nesting_pos hu hb
          (complete_block hb) hw hd (complete_block hd)

theorem complete_block :
    {ts : List Token} → {b : Block} → {n : Nat} → Braced ts b n → CompleteBlock ts b n
  | _, _, _, .braces _ hb hu => completeBlock_braces (complete_sequence hb) hu

theorem complete_statement :
    {ts : List Token} → {st : Stmt} → {isOpen : Bool} → {n : Nat} →
      Statement ts st isOpen n → CompleteStatement ts st isOpen n
  | _, _, _, _, .bind hk hx ha he hus =>
      completeStatement_bind hk hx ha (complete_expression he) he.nesting_pos hus
  | _, _, _, _, .ret hk he hus =>
      completeStatement_ret hk (complete_expression he) he.nesting_pos hus
  | _, _, _, _, .expr he hus =>
      completeStatement_expr he (complete_expression he) he.nesting_pos hus
  | _, _, _, _, .block hb => completeStatement_block hb (complete_block hb)

theorem complete_sequence :
    {ts : List Token} → {b : List Stmt} → {n : Nat} → Statements ts b n →
      CompleteSequence ts b n
  | _, _, _, .nil => completeSequence_nil
  | _, _, _, .cons hst hminus hb =>
      completeSequence_cons hst (complete_statement hst) hminus hb (complete_sequence hb)

end

/-- Derived tokens in front of the end of the input are read as the program they
derive if the nesting fits into the room, and are refused if not. -/
theorem program_complete
    {ts : List Token} {p : Program} {n : Nat} (h : Derives ts p n)
    {room : Nat} {s' : TokenStream} (hs' : s'.head.kind = .eof) :
    ReadsIf (n ≤ room) (program room) (s'.prepend ts) p s' := by
  have hbody : ReadsIf (n ≤ room)
      (sequence (statement (expression room) (block room)) endsProgram)
      (s'.prepend ts) p.statements s' :=
    complete_sequence h endsSequence_endsProgram (by rw [hs']; rfl)
  exact hbody.bind_reads (reads_pure_iff.mpr ⟨rfl, rfl⟩)

end Parser
end LetLang
