import LetLang.Proofs.Parser.Compositional

/-!
# Progress of the parsers

A parser only takes tokens off the front of its stream, whether it succeeds or
not, and a parser for an expression, a block or a statement takes at least one.
The bound on the repetitions of a loop is therefore never what ends it: the
loops satisfy the equations that one would write down for them without a bound.
-/

namespace LetLang
namespace Parser

variable {α β : Type}

/-- What `p` leaves of a stream is an end piece of it. -/
def Advances (p : Parser α) : Prop :=
  ∀ s, (p s).rest.ending = s.ending ∧ (p s).rest.tokens <:+ s.tokens

/-- What `p` leaves of a stream lies behind its first token. -/
def Consumes (p : Parser α) : Prop :=
  ∀ s, (p s).rest.ending = s.ending ∧ (p s).rest.tokens <:+ s.tokens.tail

theorem Advances.length_le
    {p : Parser α} (hp : Advances p) (s : TokenStream) :
    (p s).rest.tokens.length ≤ s.tokens.length :=
  (hp s).2.length_le

theorem Consumes.advances {p : Parser α} (hp : Consumes p) : Advances p := by
  intro s
  exact ⟨(hp s).1, (hp s).2.trans (List.tail_suffix _)⟩

/-! ## Every parser advances -/

theorem rest_bind
    (p : Parser α) (f : α → Parser β) (s : TokenStream) :
    ((p >>= f) s).rest = (p s).rest ∨
      ∃ a, ((p >>= f) s).rest = (f a (p s).rest).rest := by
  cases h : (p s).value with
  | none => exact Or.inl (by rw [bind_apply_of_eq_none h])
  | some a => exact Or.inr ⟨a, by rw [bind_apply_of_eq_some h]⟩

theorem Advances.bind
    {p : Parser α} {f : α → Parser β}
    (hp : Advances p) (hf : ∀ a, Advances (f a)) :
    Advances (p >>= f) := by
  intro s
  obtain hrest | ⟨a, hrest⟩ := rest_bind p f s
  · rw [hrest]
    exact hp s
  · rw [hrest]
    exact ⟨(hf a _).1.trans (hp s).1, (hf a _).2.trans (hp s).2⟩

theorem Consumes.bind
    {p : Parser α} {f : α → Parser β}
    (hp : Consumes p) (hf : ∀ a, Advances (f a)) :
    Consumes (p >>= f) := by
  intro s
  obtain hrest | ⟨a, hrest⟩ := rest_bind p f s
  · rw [hrest]
    exact hp s
  · rw [hrest]
    exact ⟨(hf a _).1.trans (hp s).1, (hf a _).2.trans (hp s).2⟩

theorem consumes_next : Consumes next := by
  intro s
  exact ⟨rfl, List.suffix_refl _⟩

theorem consumes_refuse : Consumes (refuse : Parser α) := by
  intro s
  refine ⟨rfl, ?_⟩
  change (s.tokens.dropWhile (·.kind ≠ .eof)).tail <:+ s.tokens.tail
  cases s.tokens with
  | nil => exact List.suffix_refl _
  | cons t ts =>
      rw [List.dropWhile_cons]
      split
      · exact (List.tail_suffix _).trans (List.dropWhile_suffix _)
      · exact List.suffix_refl _

theorem compositional_advances : Compositional Advances where
  pure _ _ := ⟨rfl, List.suffix_refl _⟩
  peek _ := ⟨rfl, List.suffix_refl _⟩
  next := consumes_next.advances
  fail _ _ _ _ := ⟨rfl, List.suffix_refl _⟩
  report _ _ _ _ := ⟨rfl, List.suffix_refl _⟩
  require kind s := by
    unfold require
    split <;> exact ⟨rfl, List.suffix_refl _⟩
  skipIf kind s := by
    unfold skipIf
    split
    · exact ⟨rfl, List.tail_suffix _⟩
    · exact ⟨rfl, List.suffix_refl _⟩
  visit _ _ := ⟨rfl, List.suffix_refl _⟩
  refuse := consumes_refuse.advances
  bind := Advances.bind
  orSkip hp s := hp s

theorem inherited_advances : Inherited Advances :=
  compositional_advances.inherited fun hp s => hp _ s

theorem advances_expression (room : Nat) (weakest : Precedence) :
    Advances (expression room weakest) :=
  inherited_advances.expression room weakest

theorem advances_block (room : Nat) : Advances (block room) :=
  inherited_advances.block room

/-! ## Phrases take at least one token -/

@[simp] theorem peek_bind_apply (f : TokenKind → Parser β) (s : TokenStream) :
    (peek >>= f) s = f s.head.kind s :=
  rfl

theorem Consumes.peek_bind
    {f : TokenKind → Parser β} (hf : ∀ kind, Consumes (f kind)) :
    Consumes (peek >>= f) := by
  intro s
  rw [peek_bind_apply]
  exact hf _ s

theorem consumes_leading (room : Nat) :
    Consumes (leading (expression room) (block room)) := by
  obtain ⟨f, hleading, hf⟩ := compositional_advances.exists_leading_eq_next_bind
    (advances_expression room) (advances_block room)
  rw [hleading]
  exact consumes_next.bind hf

theorem consumes_expression (room : Nat) (weakest : Precedence) :
    Consumes (expression room weakest) := by
  cases room with
  | zero => exact consumes_refuse
  | succ room =>
      intro s
      have hoperators (left : Expr) : Advances (operators (expression room) weakest left) :=
        inherited_advances.operators room weakest left (advances_expression room)
      exact ((consumes_leading room).bind hoperators) s

theorem consumes_block (room : Nat) : Consumes (block room) := by
  cases room with
  | zero => exact consumes_refuse
  | succ room =>
      refine consumes_next.bind fun _ => ?_
      refine (inherited_advances.sequence room endsBlock rfl
        (inherited_advances.statementWithin room)).bind fun _ => ?_
      refine consumes_next.advances.bind fun closing => ?_
      split
      · exact (compositional_advances.report _ _ rfl).bind fun _ =>
          compositional_advances.pure _
      · exact compositional_advances.pure _

theorem consumes_statement (room : Nat) :
    Consumes (statement (expression room) (block room)) := by
  have hvalue (f : Expr → Stmt) (value : Expr) :
      Advances (do skipIf .semicolon; pure (f value)) :=
    (compositional_advances.skipIf _).bind fun _ => compositional_advances.pure _
  refine Consumes.peek_bind fun kind => ?_
  split
  · exact consumes_next.bind fun _ => (compositional_advances.expect _).bind fun name =>
      (compositional_advances.expect _).bind fun _ =>
      (advances_expression room _).bind (hvalue (.bind name.literal))
  · exact consumes_next.bind fun _ => (advances_expression room _).bind (hvalue .ret)
  · exact (consumes_block room).bind fun _ => compositional_advances.pure _
  · exact (consumes_expression room _).bind (hvalue .expr)

/-! ## Loops without a bound -/

theorem bind_apply_congr
    {p q : Parser α} {f g : α → Parser β} {s : TokenStream}
    (hpq : p s = q s) (h : ∀ a, f a (q s).rest = g a (q s).rest) :
    (p >>= f) s = (q >>= g) s := by
  cases hvalue : (q s).value with
  | none =>
      rw [bind_apply_of_eq_none (hpq ▸ hvalue), bind_apply_of_eq_none hvalue, hpq]
  | some a =>
      rw [bind_apply_of_eq_some (hpq ▸ hvalue), bind_apply_of_eq_some hvalue, hpq, h]

theorem head_kind_of_length_le_zero
    {s : TokenStream} (hs : s.tokens.length ≤ 0) : s.head.kind = .eof := by
  have htokens : s.tokens = [] := List.length_eq_zero_iff.mp (Nat.le_zero.mp hs)
  simp [TokenStream.head, htokens]

/-- No infix operator of this kind binds tighter than `weakest`. -/
def EndsOperators (weakest : Precedence) (kind : TokenKind) : Prop :=
  ∀ op, BinaryOp.ofKind? kind = some op → ¬weakest < op.precedence

section Operators

variable {operand : Precedence → Parser Expr} {weakest : Precedence} {left : Expr}
  {s : TokenStream}

theorem endsOperators_eof (weakest : Precedence) : EndsOperators weakest .eof := by
  intro op hop
  exact absurd hop (by simp [BinaryOp.ofKind?])

theorem chain_apply_of_ends
    (hends : EndsOperators weakest s.head.kind) (repeats : Nat) :
    chain operand weakest repeats left s = (pure left : Parser Expr) s := by
  cases repeats with
  | zero => rfl
  | succ repeats =>
      rw [chain, peek_bind_apply]
      cases hop : BinaryOp.ofKind? s.head.kind with
      | none => rfl
      | some op => simp only [hends op hop, if_false]

theorem chain_apply_of_op
    {op : BinaryOp} (hop : BinaryOp.ofKind? s.head.kind = some op)
    (hlt : weakest < op.precedence) (repeats : Nat) :
    chain operand weakest (repeats + 1) left s =
      (do
        let _ ← next
        let right ← operand op.precedence
        chain operand weakest repeats (.binary op left right)) s := by
  rw [chain, peek_bind_apply]
  simp only [hop, hlt, if_true]

theorem endsOperators_or_exists_op (weakest : Precedence) (kind : TokenKind) :
    EndsOperators weakest kind ∨
      ∃ op, BinaryOp.ofKind? kind = some op ∧ weakest < op.precedence := by
  by_cases h : ∃ op, BinaryOp.ofKind? kind = some op ∧ weakest < op.precedence
  · exact Or.inr h
  · exact Or.inl fun op hop hlt => h ⟨op, hop, hlt⟩

theorem chain_apply_eq
    (hoperand : ∀ weakest, Advances (operand weakest)) {m n : Nat}
    (hm : s.tokens.length ≤ m) (hn : s.tokens.length ≤ n) :
    chain operand weakest m left s = chain operand weakest n left s := by
  induction m generalizing n left s with
  | zero =>
      have hends : EndsOperators weakest s.head.kind := by
        rw [head_kind_of_length_le_zero hm]
        exact endsOperators_eof weakest
      rw [chain_apply_of_ends hends, chain_apply_of_ends hends]
  | succ m ih =>
      obtain hends | ⟨op, hop, hlt⟩ := endsOperators_or_exists_op weakest s.head.kind
      · rw [chain_apply_of_ends hends, chain_apply_of_ends hends]
      · cases n with
        | zero =>
            rw [head_kind_of_length_le_zero hn] at hop
            exact absurd hop (by simp [BinaryOp.ofKind?])
        | succ n =>
            rw [chain_apply_of_op hop hlt, chain_apply_of_op hop hlt]
            refine bind_apply_congr rfl fun _ => bind_apply_congr rfl fun right => ?_
            have hlength := (hoperand op.precedence).length_le (next s).rest
            have htail : (next s).rest.tokens.length = s.tokens.length - 1 := by
              simp [next]
            exact ih (by omega) (by omega)

theorem operators_apply_of_ends (hends : EndsOperators weakest s.head.kind) :
    operators operand weakest left s = (pure left : Parser Expr) s :=
  chain_apply_of_ends hends _

theorem operators_apply_of_op
    (hoperand : ∀ weakest, Advances (operand weakest))
    {op : BinaryOp} (hop : BinaryOp.ofKind? s.head.kind = some op)
    (hlt : weakest < op.precedence) :
    operators operand weakest left s =
      (do
        let _ ← next
        let right ← operand op.precedence
        operators operand weakest (.binary op left right)) s := by
  have hrepeats : operators operand weakest left s =
      chain operand weakest (s.tokens.length + 1) left s :=
    chain_apply_eq hoperand (Nat.le_refl _) (Nat.le_succ _)
  rw [hrepeats, chain_apply_of_op hop hlt]
  refine bind_apply_congr rfl fun _ => bind_apply_congr rfl fun right => ?_
  have hlength := (hoperand op.precedence).length_le (next s).rest
  have htail : (next s).rest.tokens.length = s.tokens.length - 1 := by
    simp [next]
  exact chain_apply_eq hoperand (by omega) (Nat.le_refl _)

end Operators

section Sequence

variable {statement : Parser Stmt} {stops : TokenKind → Bool} {s : TokenStream}

theorem statements_apply_of_stops
    (hs : stops s.head.kind = true) (repeats : Nat) :
    statements statement stops repeats s = (pure [] : Parser (List Stmt)) s := by
  cases repeats with
  | zero => rfl
  | succ repeats =>
      rw [statements, peek_bind_apply]
      simp only [hs, if_true]

theorem statements_apply_of_not_stops
    (hs : stops s.head.kind = false) (repeats : Nat) :
    statements statement stops (repeats + 1) s =
      (do
        let first ← orSkip statement
        let others ← statements statement stops repeats
        pure (first.toList ++ others)) s := by
  rw [statements, peek_bind_apply]
  simp only [hs, Bool.false_eq_true, if_false]

theorem length_rest_lt_of_not_stops
    (hstatement : Consumes statement) (heof : stops .eof = true)
    (hs : stops s.head.kind = false) :
    (orSkip statement s).rest.tokens.length < s.tokens.length := by
  have hpos : 0 < s.tokens.length := by
    apply Nat.pos_of_ne_zero
    intro hzero
    rw [head_kind_of_length_le_zero (Nat.le_of_eq hzero), heof] at hs
    contradiction
  have hlength : (orSkip statement s).rest.tokens.length ≤ s.tokens.tail.length :=
    (hstatement s).2.length_le
  rw [List.length_tail] at hlength
  omega

theorem statements_apply_eq
    (hstatement : Consumes statement) (heof : stops .eof = true) {m n : Nat}
    (hm : s.tokens.length ≤ m) (hn : s.tokens.length ≤ n) :
    statements statement stops m s = statements statement stops n s := by
  induction m generalizing n s with
  | zero =>
      have hs : stops s.head.kind = true := by
        rw [head_kind_of_length_le_zero hm, heof]
      rw [statements_apply_of_stops hs, statements_apply_of_stops hs]
  | succ m ih =>
      cases hs : stops s.head.kind with
      | true => rw [statements_apply_of_stops hs, statements_apply_of_stops hs]
      | false =>
          have hlength := length_rest_lt_of_not_stops hstatement heof hs
          cases n with
          | zero => omega
          | succ n =>
              rw [statements_apply_of_not_stops hs, statements_apply_of_not_stops hs]
              refine bind_apply_congr rfl fun first => ?_
              exact bind_apply_congr (ih (by omega) (by omega)) fun _ => rfl

theorem sequence_apply_of_stops (hs : stops s.head.kind = true) :
    sequence statement stops s = (pure [] : Parser (List Stmt)) s :=
  statements_apply_of_stops hs _

theorem sequence_apply_of_not_stops
    (hstatement : Consumes statement) (heof : stops .eof = true)
    (hs : stops s.head.kind = false) :
    sequence statement stops s =
      (do
        let first ← orSkip statement
        let others ← sequence statement stops
        pure (first.toList ++ others)) s := by
  have hrepeats : sequence statement stops s =
      statements statement stops (s.tokens.length + 1) s :=
    statements_apply_eq hstatement heof (Nat.le_refl _) (Nat.le_succ _)
  rw [hrepeats, statements_apply_of_not_stops hs]
  have hlength := length_rest_lt_of_not_stops hstatement heof hs
  refine bind_apply_congr rfl fun first => ?_
  exact bind_apply_congr
    (statements_apply_eq hstatement heof (Nat.le_of_lt hlength) (Nat.le_refl _))
    fun _ => rfl

end Sequence

/-! ## Whole programs -/

theorem bind_pure_apply (p : Parser α) (f : α → β) (s : TokenStream) :
    (p >>= fun a => pure (f a)) s =
      ⟨(p s).value.map f, (p s).rest, (p s).errors, (p s).visits⟩ := by
  cases h : (p s).value with
  | none => rw [bind_apply_of_eq_none h, Option.map_none]
  | some a =>
      rw [bind_apply_of_eq_some h]
      simp

/-- A sequence of statements never fails, and it goes on to a token at which it
stops. -/
theorem sequence_ends
    {statement : Parser Stmt} {stops : TokenKind → Bool}
    (hstatement : Consumes statement) (heof : stops .eof = true) (s : TokenStream) :
    (∃ body, (sequence statement stops s).value = some body) ∧
      stops (sequence statement stops s).rest.head.kind = true := by
  induction hlength : s.tokens.length using Nat.strongRecOn generalizing s with
  | ind n ih =>
      cases hs : stops s.head.kind with
      | true =>
          rw [sequence_apply_of_stops hs]
          exact ⟨⟨[], rfl⟩, hs⟩
      | false =>
          have hshorter := length_rest_lt_of_not_stops hstatement heof hs
          obtain ⟨⟨others, hothers⟩, hrest⟩ := ih _ (hlength ▸ hshorter) _ rfl
          rw [sequence_apply_of_not_stops hstatement heof hs, bind_apply_of_eq_some rfl,
            bind_pure_apply, hothers]
          exact ⟨⟨_, rfl⟩, hrest⟩

end Parser

namespace Program

/-- The statements of a program, before they are put together. -/
def body : Parser (List Stmt) :=
  Parser.sequence
    (Parser.statement (Parser.expression Parser.maxNesting) (Parser.block Parser.maxNesting))
    Parser.endsProgram

theorem read_eq (s : TokenStream) :
    read s = ⟨(body s).value.map mk, (body s).rest, (body s).errors, (body s).visits⟩ :=
  Parser.bind_pure_apply body mk s

theorem read_nil (ending : Position) :
    read ⟨[], ending⟩ = ⟨some ⟨[]⟩, ⟨[], ending⟩, [], []⟩ :=
  rfl

theorem body_ends (s : TokenStream) :
    (∃ statements, (body s).value = some statements) ∧
      Parser.endsProgram (body s).rest.head.kind = true :=
  Parser.sequence_ends (Parser.consumes_statement Parser.maxNesting) rfl s

theorem exists_value_read (s : TokenStream) :
    ∃ statements, (read s).value = some ⟨statements⟩ := by
  obtain ⟨statements, hstatements⟩ := (body_ends s).1
  rw [read_eq, hstatements]
  exact ⟨statements, rfl⟩

/-- Only an end-of-input token stops the reading of a program, so without one in
the list nothing is left. -/
theorem rest_read_of_forall_ne_eof {s : TokenStream} (hs : ∀ t ∈ s.tokens, t.kind ≠ .eof) :
    (read s).rest = ⟨[], s.ending⟩ := by
  have hadvances : (read s).rest.ending = s.ending ∧ (read s).rest.tokens <:+ s.tokens :=
    Parser.inherited_advances.program Parser.maxNesting s
  have hhead : (read s).rest.head.kind = .eof := by
    rw [read_eq]
    exact of_decide_eq_true (body_ends s).2
  generalize (read s).rest = rest at hadvances hhead ⊢
  obtain ⟨tokens, ending⟩ := rest
  obtain ⟨rfl, hsuffix⟩ := hadvances
  cases tokens with
  | nil => rfl
  | cons t ts =>
      have ht : t ∈ s.tokens := hsuffix.subset List.mem_cons_self
      exact absurd hhead (hs t ht)

end Program

end LetLang
