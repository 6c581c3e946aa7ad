import LetLang.Program.Render
import LetLang.Proofs.Grammar.Basic
import LetLang.Proofs.Rendering.Scan

/-!
# Canonical text is derived by the grammar

The canonical text of a well-formed tree is cut into tokens that derive the tree
again.  Every operator of the text stands in parentheses, so every expression in
it is a primary expression, and no statement in it starts with a minus sign.
-/

namespace LetLang

/-! ## Well-formed trees -/

/-- Whether a text is a word and no reserved one. -/
def isName (x : String) : Bool :=
  match x.toList with
  | [] => false
  | c :: tail =>
      isWordStart c && tail.all isWordChar && !(TokenKind.keywords.map Prod.fst).contains x

mutual

/-- Whether all names in an expression are names of the language and no literal
in it is negative. -/
def Expr.isWellFormed : Expr → Bool
  | .name x => isName x
  | .int n => 0 ≤ n.toInt
  | .bool _ => true
  | .unary _ e => e.isWellFormed
  | .binary _ l r => l.isWellFormed && r.isWellFormed
  | .ifThen c t => c.isWellFormed && Stmt.areWellFormed t
  | .ifElse c t e => c.isWellFormed && Stmt.areWellFormed t && Stmt.areWellFormed e

/-- Whether a statement is well-formed, the name that it binds included. -/
def Stmt.isWellFormed : Stmt → Bool
  | .bind x e => isName x && e.isWellFormed
  | .ret e | .expr e => e.isWellFormed
  | .block b => Stmt.areWellFormed b

/-- Whether all statements of a sequence are well-formed. -/
def Stmt.areWellFormed : List Stmt → Bool
  | [] => true
  | s :: b => s.isWellFormed && Stmt.areWellFormed b

end

/-- Whether all statements of a program are well-formed. -/
def Program.isWellFormed (p : Program) : Bool :=
  Stmt.areWellFormed p.statements

/-! ## The nesting of canonical text -/

mutual

/-- How deeply the canonical text of an expression is nested. -/
def Expr.need : Expr → Nat
  | .name _ | .int _ | .bool _ => 1
  | .unary _ e => 2 + e.need
  | .binary _ l r => max (1 + l.need) (2 + r.need)
  | .ifThen c t => max (1 + c.need) (1 + (1 + Stmt.needOfAll t))
  | .ifElse c t e =>
      max (1 + c.need) (max (1 + (1 + Stmt.needOfAll t)) (1 + (1 + Stmt.needOfAll e)))

/-- How deeply the canonical text of a statement is nested. -/
def Stmt.need : Stmt → Nat
  | .bind _ e | .ret e | .expr e => e.need
  | .block b => 1 + Stmt.needOfAll b

/-- How deeply the canonical text of a sequence of statements is nested. -/
def Stmt.needOfAll : List Stmt → Nat
  | [] => 0
  | s :: b => max s.need (Stmt.needOfAll b)

end

/-- How deeply the canonical text of a program is nested. -/
def Program.need (p : Program) : Nat :=
  Stmt.needOfAll p.statements

/-! ## Names and literals -/

open Grammar

section Atoms

variable {text rest : List Char} {Q : List Token → Prop}

theorem ofWord_of_not_mem_keywords
    {x : String} (hx : (TokenKind.keywords.map Prod.fst).contains x = false) :
    TokenKind.ofWord x = .ident := by
  have hlookup : TokenKind.keywords.lookup x = none := by
    rw [List.lookup_eq_none_iff]
    intro entry hentry
    rw [bne_iff_ne]
    rintro rfl
    have hmem : entry.1 ∈ TokenKind.keywords.map Prod.fst := List.mem_map_of_mem hentry
    rw [← List.contains_iff_mem, hx] at hmem
    contradiction
  simp [TokenKind.ofWord, hlookup]

theorem exists_toList_eq_of_isName
    {x : String} (hx : isName x = true) :
    ∃ c tail, x.toList = c :: tail ∧ isWordStart c = true ∧
      (∀ d ∈ tail, isWordChar d = true) ∧
      (TokenKind.keywords.map Prod.fst).contains x = false := by
  unfold isName at hx
  split at hx
  · cases hx
  · next c tail htext =>
    simp only [Bool.and_eq_true, List.all_eq_true, Bool.not_eq_true'] at hx
    exact ⟨c, tail, htext, hx.1.1, hx.1.2, hx.2⟩

theorem isWordChar_of_mem_name
    {x : String} (hx : isName x = true) : ∀ c ∈ x.toList, isWordChar c = true := by
  obtain ⟨c, tail, htext, hc, htail, -⟩ := exists_toList_eq_of_isName hx
  rw [htext, List.forall_mem_cons]
  exact ⟨isWordChar_of_isWordStart hc, htail⟩

theorem exists_toList_render_eq
    {n : Integer} (hn : 0 ≤ n.toInt) :
    ∃ c tail, n.render.toList = c :: tail ∧ c.isDigit = true ∧
      ∀ d ∈ tail, d.isDigit = true := by
  obtain ⟨m, hm⟩ := Int.eq_ofNat_of_zero_le hn
  have hrender : n.render = m.repr := by
    rw [Integer.render, hm]
    rfl
  obtain ⟨hne, hdigits, -⟩ := Decimal.read?_eq_some_iff.mp (Decimal.read?_toList_repr m)
  obtain ⟨c, tail, htext⟩ := List.exists_cons_of_ne_nil hne
  rw [htext] at hdigits
  refine ⟨c, tail, hrender ▸ htext, hdigits c List.mem_cons_self, ?_⟩
  intro d hd
  exact hdigits d (List.mem_cons_of_mem c hd)

theorem scansAs_name
    {x : String} (hx : isName x = true) (hrest : Separated (text ++ rest))
    (h : ScansAs text rest fun us =>
      ∀ t : Token, t.kind = .ident → t.literal = x → Q (t :: us)) :
    ScansAs (x.toList ++ text) rest Q := by
  obtain ⟨c, tail, htext, hc, htail, hkeyword⟩ := exists_toList_eq_of_isName hx
  have hliteral : String.ofList (c :: tail) = x := by
    rw [← htext, String.ofList_toList]
  rw [htext, List.cons_append]
  refine ScansAs.word hc htail hrest ?_
  rw [hliteral, ofWord_of_not_mem_keywords hkeyword]
  exact h

theorem scansAs_int
    {n : Integer} (hn : 0 ≤ n.toInt) (hrest : Separated (text ++ rest))
    (h : ScansAs text rest fun us =>
      ∀ t : Token, t.kind = .int → Integer.parse? t.literal = some n → Q (t :: us)) :
    ScansAs (n.render.toList ++ text) rest Q := by
  obtain ⟨c, tail, htext, hc, htail⟩ := exists_toList_render_eq hn
  have hliteral : String.ofList (c :: tail) = n.render := by
    rw [← htext, String.ofList_toList]
  rw [htext, List.cons_append]
  refine ScansAs.number hc htail hrest ?_
  rw [hliteral]
  refine h.mono ?_
  intro us hus t ht hlit
  apply hus t ht
  rw [hlit]
  exact Integer.parse?_render n

theorem scansAs_keyword
    {c : Char} {tail : List Char} {kind : TokenKind}
    (hc : isWordStart c = true) (htail : tail.all isWordChar = true)
    (hkind : TokenKind.ofWord (String.ofList (c :: tail)) = kind)
    (hrest : Separated (text ++ rest))
    (h : ScansAs text rest fun us => ∀ t : Token, t.kind = kind → Q (t :: us)) :
    ScansAs (c :: (tail ++ text)) rest Q := by
  refine ScansAs.word hc (List.all_eq_true.mp htail) hrest ?_
  exact h.mono fun us hus t ht _ => hus t (ht.trans hkind)

theorem scansAs_unaryOp
    {op : UnaryOp} (hrest : (text ++ rest).head? ≠ some '=')
    (h : ScansAs text rest fun us =>
      ∀ t : Token, UnaryOp.ofKind? t.kind = some op → Q (t :: us)) :
    ScansAs (op.symbol.toList ++ text) rest Q := by
  cases op with
  | not =>
      exact ScansAs.symbol rfl (fun _ => hrest)
        (h.mono fun us hus t ht => hus t (by rw [ht]; rfl))
  | neg =>
      exact ScansAs.symbol_of_ne rfl (by decide) (by decide)
        (h.mono fun us hus t ht => hus t (by rw [ht]; rfl))

theorem scansAs_binaryOp
    {op : BinaryOp}
    (h : ScansAs text rest fun us =>
      ∀ t : Token, BinaryOp.ofKind? t.kind = some op → Q (t :: us)) :
    ScansAs (op.symbol.toList ++ (' ' :: text)) rest Q := by
  cases op with
  | eq =>
      change ScansAs ('=' :: (['='] ++ (' ' :: text))) rest Q
      exact ScansAs.lexeme rfl rfl
        (ScansAs.blank (h.mono fun us hus t ht _ => hus t (by rw [ht]; rfl)))
  | ne =>
      change ScansAs ('!' :: (['='] ++ (' ' :: text))) rest Q
      exact ScansAs.lexeme rfl rfl
        (ScansAs.blank (h.mono fun us hus t ht _ => hus t (by rw [ht]; rfl)))
  | _ =>
      exact ScansAs.symbol_of_ne rfl (by decide) (by decide)
        (ScansAs.blank (h.mono fun us hus t ht => hus t (by rw [ht]; rfl)))

end Atoms

/-! ## Expressions -/

/-- The tokens derive the expression as a primary one. -/
abbrev DerivesPrimary (e : Expr) (ts : List Token) : Prop :=
  Expression .primary ts e e.need

/-- The canonical text of an expression is cut into tokens that derive it. -/
def ScansExpr (e : Expr) : Prop :=
  ∀ {rest : List Char}, Separated rest →
    ScansAs e.render.toList rest (DerivesPrimary e)

theorem scansExpr_name {x : String} (hx : isName x = true) : ScansExpr (.name x) := by
  intro rest hrest
  have h : ScansAs (x.toList ++ []) rest (DerivesPrimary (.name x)) := by
    refine scansAs_name hx hrest (.nil ?_)
    rintro t ht rfl
    exact .name ht
  rwa [List.append_nil] at h

theorem scansExpr_int {n : Integer} (hn : 0 ≤ n.toInt) : ScansExpr (.int n) := by
  intro rest hrest
  have h : ScansAs (n.render.toList ++ []) rest (DerivesPrimary (.int n)) := by
    refine scansAs_int hn hrest (.nil ?_)
    intro t ht hparse
    exact .int ht (writes_of_parse?_eq_some hparse)
  rwa [List.append_nil] at h

theorem scansExpr_bool (b : Bool) : ScansExpr (.bool b) := by
  intro rest hrest
  cases b with
  | true =>
      change ScansAs ('t' :: (['r', 'u', 'e'] ++ ([] : List Char))) rest _
      refine scansAs_keyword (by decide) (by decide) rfl hrest (.nil ?_)
      intro t ht
      exact .boolTrue ht
  | false =>
      change ScansAs ('f' :: (['a', 'l', 's', 'e'] ++ ([] : List Char))) rest _
      refine scansAs_keyword (by decide) (by decide) rfl hrest (.nil ?_)
      intro t ht
      exact .boolFalse ht

theorem scansExpr_unary
    {op : UnaryOp} {e : Expr} (he : ScansExpr e)
    (hhead : ∀ text, (e.render.toList ++ text).head? ≠ some '=') :
    ScansExpr (.unary op e) := by
  intro rest _
  simp only [Expr.render, String.toList_append, List.append_assoc]
  change ScansAs ('(' :: (op.symbol.toList ++ (e.render.toList ++ [')']))) rest _
  refine ScansAs.symbol_of_ne rfl (by decide) (by decide) ?_
  refine scansAs_unaryOp (by rw [List.append_assoc]; exact hhead _) ?_
  refine ScansAs.append (he (separated_cons (by decide) _)) ?_
  refine ScansAs.symbol_of_ne rfl (by decide) (by decide) (.nil ?_)
  intro u hu ts hts t ht v hv
  have hunary : Expression .equality (t :: ts) (.unary op e) (1 + e.need) :=
    (Expression.unary ht (.tighter rfl hts)).of_rank_le (by decide)
  have hgroup := Expression.group hv hunary hu
  rwa [← Nat.add_assoc] at hgroup

theorem scansExpr_binary
    {op : BinaryOp} {l r : Expr} (hl : ScansExpr l) (hr : ScansExpr r) :
    ScansExpr (.binary op l r) := by
  intro rest _
  simp only [Expr.render, String.toList_append, List.append_assoc]
  change ScansAs ('(' :: (l.render.toList ++ (' ' :: (op.symbol.toList ++
    (' ' :: (r.render.toList ++ [')'])))))) rest _
  refine ScansAs.symbol_of_ne rfl (by decide) (by decide) ?_
  refine ScansAs.append (hl (separated_cons (by decide) _)) (ScansAs.blank ?_)
  refine scansAs_binaryOp ?_
  refine ScansAs.append (hr (separated_cons (by decide) _)) ?_
  refine ScansAs.symbol_of_ne rfl (by decide) (by decide) (.nil ?_)
  intro u hu rs hrs t ht ls hls v hv
  have hleft : Expression op.stratum ls l l.need := hls.of_rank_le (by cases op <;> decide)
  obtain ⟨τ, hτ⟩ : ∃ τ, op.stratum.tighter? = some τ := by
    cases op <;> exact ⟨_, rfl⟩
  have hright : Expression τ rs r r.need :=
    hrs.of_rank_le (by cases op <;> cases hτ <;> decide)
  have hbinary : Expression .equality (ls ++ t :: rs) (.binary op l r)
      (max l.need (1 + r.need)) :=
    (Expression.binary ((lookup_binaryOperators _).trans ht) rfl hτ hleft hright).of_rank_le
      (Nat.zero_le _)
  have hgroup := Expression.group hv hbinary hu
  have hneed : 1 + max l.need (1 + r.need) = (Expr.binary op l r).need := by
    rw [Expr.need]
    omega
  rw [hneed] at hgroup
  simpa using hgroup

/-- The canonical text of a block is cut into tokens that derive it. -/
def ScansBlock (b : Block) : Prop :=
  ∀ {rest : List Char}, ScansAs b.render.toList rest fun ts =>
    Braced ts b (1 + Stmt.needOfAll b)

theorem scansAs_condition
    {c : Expr} {text rest : List Char} {Q : List Token → Prop} (hc : ScansExpr c)
    (h : ScansAs text rest fun us => ∀ i t u cs, i.kind = .ifWord → t.kind = .lparen →
      Expression .equality cs c c.need → u.kind = .rparen → Q (i :: t :: (cs ++ u :: us))) :
    ScansAs ("if (".toList ++ (c.render.toList ++ (") ".toList ++ text))) rest Q := by
  change ScansAs ('i' :: (['f'] ++ (' ' :: '(' :: (c.render.toList ++ (')' :: ' ' :: text)))))
    rest Q
  refine scansAs_keyword (by decide) (by decide) rfl (separated_cons (by decide) _) ?_
  refine ScansAs.blank (ScansAs.symbol_of_ne rfl (by decide) (by decide) ?_)
  refine ScansAs.append (hc (separated_cons (by decide) _)) ?_
  refine ScansAs.symbol_of_ne rfl (by decide) (by decide) (ScansAs.blank (h.mono ?_))
  intro us hus u hu cs hcs t ht i hi
  exact hus i t u cs hi ht (hcs.of_rank_le (Nat.zero_le _)) hu

theorem scansExpr_ifThen
    {c : Expr} {b : Block} (hc : ScansExpr c) (hb : ScansBlock b) :
    ScansExpr (.ifThen c b) := by
  intro rest _
  simp only [Expr.render, String.toList_append, List.append_assoc]
  refine scansAs_condition hc (hb.mono ?_)
  intro bs hbs i t u cs hi ht hcs hu
  exact .ifThen hi ht hcs hu hbs

theorem scansExpr_ifElse
    {c : Expr} {b d : Block} (hc : ScansExpr c) (hb : ScansBlock b) (hd : ScansBlock d) :
    ScansExpr (.ifElse c b d) := by
  intro rest _
  simp only [Expr.render, String.toList_append, List.append_assoc]
  refine scansAs_condition hc (ScansAs.append hb ?_)
  change ScansAs (' ' :: 'e' :: (['l', 's', 'e'] ++ (' ' :: (Block.render d).toList))) rest _
  refine ScansAs.blank (scansAs_keyword (by decide) (by decide) rfl
    (separated_cons (by decide) _) (ScansAs.blank (hd.mono ?_)))
  intro ds hds w hw bs hbs i t u cs hi ht hcs hu
  exact .ifElse hi ht hcs hu hbs hw hds

/-! ## Statements -/

/-- The first token is no minus sign. -/
def StartsWithoutMinus (ts : List Token) : Prop :=
  ∀ u ∈ ts.head?, u.kind ≠ .minus

theorem startsWithoutMinus_cons
    {t : Token} (ht : t.kind ≠ .minus) (ts : List Token) : StartsWithoutMinus (t :: ts) := by
  intro u hu
  obtain rfl : t = u := Option.some.inj hu
  exact ht

theorem StartsWithoutMinus.append
    {ts us : List Token} (hts : StartsWithoutMinus ts) (hus : StartsWithoutMinus us) :
    StartsWithoutMinus (ts ++ us) := by
  cases ts with
  | nil => exact hus
  | cons t ts => exact startsWithoutMinus_cons (hts t rfl) _

theorem startsWithoutMinus_of_primary
    {ts : List Token} {e : Expr} {n : Nat} (h : Expression .primary ts e n) :
    StartsWithoutMinus ts := by
  cases h with
  | tighter hτ _ => cases hτ
  | binary _ _ hτ _ _ => cases hτ
  | name ht | int ht _ | boolTrue ht | boolFalse ht | group ht _ _ | ifThen ht _ _ _ _
  | ifElse ht _ _ _ _ _ _ =>
      exact startsWithoutMinus_cons (by rw [ht]; decide) _

/-- The tokens derive the statement and do not start with a minus sign. -/
def DerivesStatement (st : Stmt) (ts : List Token) : Prop :=
  (∃ isOpen, Statement ts st isOpen st.need) ∧ StartsWithoutMinus ts

/-- The canonical text of a statement is cut into tokens that derive it. -/
def ScansStmt (st : Stmt) : Prop :=
  ∀ {rest : List Char}, Separated rest →
    ScansAs st.render.toList rest (DerivesStatement st)

theorem scansStmt_bind
    {x : String} {e : Expr} (hx : isName x = true) (he : ScansExpr e) :
    ScansStmt (.bind x e) := by
  intro rest _
  simp only [Stmt.render, String.toList_append, List.append_assoc]
  change ScansAs ('l' :: (['e', 't'] ++ (' ' :: (x.toList ++ (' ' :: '=' :: ' ' ::
    (e.render.toList ++ [';'])))))) rest _
  refine scansAs_keyword (by decide) (by decide) rfl (separated_cons (by decide) _) ?_
  refine ScansAs.blank (scansAs_name hx (separated_cons (by decide) _) ?_)
  refine ScansAs.blank (ScansAs.symbol rfl (by simp) (ScansAs.blank ?_))
  refine ScansAs.append (he (separated_cons (by decide) _)) ?_
  refine ScansAs.symbol_of_ne rfl (by decide) (by decide) (.nil ?_)
  rintro u hu ts hts a ha t ht rfl k hk
  have he : Expression .equality ts e e.need := hts.of_rank_le (Nat.zero_le _)
  exact ⟨⟨false, .bind hk ht ha he (.semicolon hu)⟩,
    startsWithoutMinus_cons (by rw [hk]; decide) _⟩

theorem scansStmt_ret {e : Expr} (he : ScansExpr e) : ScansStmt (.ret e) := by
  intro rest _
  simp only [Stmt.render, String.toList_append, List.append_assoc]
  change ScansAs ('r' :: (['e', 't', 'u', 'r', 'n'] ++ (' ' ::
    (e.render.toList ++ [';'])))) rest _
  refine scansAs_keyword (by decide) (by decide) rfl (separated_cons (by decide) _) ?_
  refine ScansAs.blank (ScansAs.append (he (separated_cons (by decide) _)) ?_)
  refine ScansAs.symbol_of_ne rfl (by decide) (by decide) (.nil ?_)
  intro u hu ts hts k hk
  have he : Expression .equality ts e e.need := hts.of_rank_le (Nat.zero_le _)
  exact ⟨⟨false, .ret hk he (.semicolon hu)⟩,
    startsWithoutMinus_cons (by rw [hk]; decide) _⟩

theorem scansStmt_expr {e : Expr} (he : ScansExpr e) : ScansStmt (.expr e) := by
  intro rest hrest
  refine (he hrest).mono ?_
  intro ts hts
  have he : Expression .equality ts e e.need := hts.of_rank_le (Nat.zero_le _)
  have hstatement : Statement (ts ++ []) (.expr e) true e.need := .expr he .omitted
  rw [List.append_nil] at hstatement
  exact ⟨⟨true, hstatement⟩, startsWithoutMinus_of_primary hts⟩

theorem scansStmt_block {b : Block} (hb : ScansBlock b) : ScansStmt (.block b) := by
  intro rest _
  refine hb.mono ?_
  intro ts hts
  refine ⟨⟨false, .block hts⟩, ?_⟩
  obtain ⟨t, us, rfl, ht⟩ := hts.exists_head
  exact startsWithoutMinus_cons (by rw [ht]; decide) us

/-- The canonical text of a sequence of statements is cut into tokens that
derive it. -/
def ScansSequence (b : List Stmt) : Prop :=
  ∀ {rest : List Char}, Separated rest →
    ScansAs (" ".intercalate (Stmt.renderEach b)).toList rest fun ts =>
      Statements ts b (Stmt.needOfAll b) ∧ StartsWithoutMinus ts

theorem derives_cons
    {st : Stmt} {b : List Stmt} {ts us : List Token} (hts : DerivesStatement st ts)
    (hus : Statements us b (Stmt.needOfAll b) ∧ StartsWithoutMinus us) :
    Statements (ts ++ us) (st :: b) (Stmt.needOfAll (st :: b)) ∧
      StartsWithoutMinus (ts ++ us) := by
  obtain ⟨⟨isOpen, hst⟩, hminus⟩ := hts
  exact ⟨.cons hst (fun _ => hus.2) hus.1, hminus.append hus.2⟩

theorem derives_nil :
    Statements [] [] (Stmt.needOfAll []) ∧ StartsWithoutMinus [] :=
  ⟨.nil, nofun⟩

theorem scansSequence_nil : ScansSequence [] := by
  intro rest _
  rw [Stmt.renderEach, String.intercalate_nil]
  exact .nil derives_nil

theorem scansSequence_singleton {st : Stmt} (hst : ScansStmt st) : ScansSequence [st] := by
  intro rest hrest
  rw [Stmt.renderEach, Stmt.renderEach, String.intercalate_singleton]
  refine (hst hrest).mono ?_
  intro ts hts
  simpa using derives_cons hts derives_nil

theorem scansSequence_cons
    {st next : Stmt} {b : List Stmt} (hst : ScansStmt st)
    (hb : ScansSequence (next :: b)) : ScansSequence (st :: next :: b) := by
  intro rest hrest
  have hb := hb hrest
  rw [Stmt.renderEach] at hb
  rw [Stmt.renderEach, Stmt.renderEach, String.intercalate_cons_cons, String.toList_append,
    String.toList_append, List.append_assoc]
  refine ScansAs.append (hst (separated_cons (by decide) _)) (ScansAs.blank (hb.mono ?_))
  intro us hus ts hts
  exact derives_cons hts hus

theorem scansBlock {b : Block} (hb : ScansSequence b) : ScansBlock b := by
  intro rest
  cases b with
  | nil =>
      change ScansAs ('\x7b' :: ['\x7d']) rest _
      refine ScansAs.symbol_of_ne rfl (by decide) (by decide) ?_
      refine ScansAs.symbol_of_ne rfl (by decide) (by decide) (.nil ?_)
      intro u hu t ht
      exact .braces ht .nil hu
  | cons st b =>
      have hrender : (Block.render (st :: b)).toList =
          '\x7b' :: ' ' :: ((" ".intercalate (Stmt.renderEach (st :: b))).toList ++
            [' ', '\x7d']) := by
        simp [Block.render, Stmt.renderBraced, Stmt.renderEach]
      rw [hrender]
      refine ScansAs.symbol_of_ne rfl (by decide) (by decide) (ScansAs.blank ?_)
      refine ScansAs.append (hb (separated_cons (by decide) _)) (ScansAs.blank ?_)
      refine ScansAs.symbol_of_ne rfl (by decide) (by decide) (.nil ?_)
      intro u hu ts hts t ht
      exact .braces ht hts.1 hu

end LetLang
