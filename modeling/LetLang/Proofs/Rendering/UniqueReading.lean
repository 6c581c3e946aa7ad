import LetLang.Proofs.Evaluation.Lookups
import LetLang.Proofs.Lexing.Spelling

/-!
# Canonical text can be read in one way only

Different programs have different canonical texts.  This does not go through the
parser, which gives up on deep nesting and takes a negative literal for an
operator in front of a number.

The argument is that of unique readability.  The first token of a canonical text
tells the form of the phrase, up to two pairs of forms that start alike: the two
sorts of operators, and the conditionals with and without an `else` part.  Where
a phrase ends is settled by what can follow it.
-/

namespace LetLang

/-! ## Names in programs -/

/-- All names that an expression defines or refers to are names of the language. -/
def Expr.IsNamed (e : Expr) : Prop :=
  ∀ x ∈ e.targets ++ e.references, isName x = true

/-- All names that a statement defines or refers to are names of the language. -/
def Stmt.IsNamed (s : Stmt) : Prop :=
  ∀ x ∈ s.targets ++ s.references, isName x = true

/-- All names that statements define or refer to are names of the language. -/
def Stmt.AreNamed (b : List Stmt) : Prop :=
  ∀ x ∈ Stmt.targetsOfAll b ++ Stmt.referencesOfAll b, isName x = true

/-- All names that a program defines or refers to are names of the language. -/
def Program.IsNamed (p : Program) : Prop :=
  Stmt.AreNamed p.statements

instance (p : Program) : Decidable p.IsNamed :=
  inferInstanceAs (Decidable (∀ x ∈ _, isName x = true))

section IsNamed

variable {e l r c : Expr} {t u b : List Stmt} {s : Stmt} {x : String}

theorem isNamed_name : (Expr.name x).IsNamed ↔ isName x = true := by
  simp [Expr.IsNamed, Expr.targets, Expr.references]

theorem isNamed_unary {op : UnaryOp} : (Expr.unary op e).IsNamed ↔ e.IsNamed := by
  simp [Expr.IsNamed, Expr.targets, Expr.references]

theorem isNamed_binary {op : BinaryOp} :
    (Expr.binary op l r).IsNamed ↔ l.IsNamed ∧ r.IsNamed := by
  simp only [Expr.IsNamed, Expr.targets, Expr.references, List.forall_mem_append]
  exact and_and_and_comm

theorem isNamed_ifThen : (Expr.ifThen c t).IsNamed ↔ c.IsNamed ∧ Stmt.AreNamed t := by
  simp only [Expr.IsNamed, Stmt.AreNamed, Expr.targets, Expr.references, List.forall_mem_append]
  exact and_and_and_comm

theorem isNamed_ifElse :
    (Expr.ifElse c t u).IsNamed ↔ c.IsNamed ∧ Stmt.AreNamed t ∧ Stmt.AreNamed u := by
  simp only [Expr.IsNamed, Stmt.AreNamed, Expr.targets, Expr.references, List.forall_mem_append]
  exact and_and_and_comm.trans (and_congr_right fun _ => and_and_and_comm)

theorem isNamed_bind : (Stmt.bind x e).IsNamed ↔ isName x = true ∧ e.IsNamed := by
  simp only [Stmt.IsNamed, Expr.IsNamed, Stmt.targets, Stmt.references, List.forall_mem_append,
    List.forall_mem_cons, and_assoc]

theorem isNamed_ret : (Stmt.ret e).IsNamed ↔ e.IsNamed := by
  simp only [Stmt.IsNamed, Expr.IsNamed, Stmt.targets, Stmt.references]

theorem isNamed_expr : (Stmt.expr e).IsNamed ↔ e.IsNamed := by
  simp only [Stmt.IsNamed, Expr.IsNamed, Stmt.targets, Stmt.references]

theorem isNamed_block : (Stmt.block b).IsNamed ↔ Stmt.AreNamed b := by
  simp only [Stmt.IsNamed, Stmt.AreNamed, Stmt.targets, Stmt.references]

theorem areNamed_cons : Stmt.AreNamed (s :: b) ↔ s.IsNamed ∧ Stmt.AreNamed b := by
  simp only [Stmt.IsNamed, Stmt.AreNamed, Stmt.targetsOfAll, Stmt.referencesOfAll,
    List.forall_mem_append]
  exact and_and_and_comm

end IsNamed

/-! ## First tokens -/

/-- The kind of the first token of a text. -/
def firstKind : List Char → TokenKind
  | [] => .eof
  | c :: rest => if isBlank c then firstKind rest else (Lexeme.first c rest).kind

/-- The kind of the first token in the canonical text of an expression. -/
def Expr.firstKind : Expr → TokenKind
  | .name _ => .ident
  | .int n => if n.toInt < 0 then .minus else .int
  | .bool b => if b then .trueWord else .falseWord
  | .unary .. | .binary .. => .lparen
  | .ifThen .. | .ifElse .. => .ifWord

/-- The kind of the first token in the canonical text of a statement. -/
def Stmt.firstKind : Stmt → TokenKind
  | .bind .. => .letWord
  | .ret _ => .returnWord
  | .expr e => e.firstKind
  | .block _ => .lbrace

theorem firstKind_word
    {c : Char} {tail rest : List Char} (hc : isWordStart c = true)
    (htail : ∀ d ∈ tail, isWordChar d = true) (hrest : Separated rest) :
    firstKind (c :: (tail ++ rest)) = .ofWord (String.ofList (c :: tail)) := by
  have hblank := isBlank_of_isWordChar (isWordChar_of_isWordStart hc)
  rw [firstKind, if_neg (by simp [hblank]), first_of_isLetter (isWordStart_iff.mp hc),
    takeWhile_append_of_separated htail hrest]

theorem firstKind_digit {c : Char} (hc : c.isDigit = true) (rest : List Char) :
    firstKind (c :: rest) = .int := by
  have hblank := isBlank_of_isWordChar (isWordChar_of_isDigit hc)
  rw [firstKind, if_neg (by simp [hblank]), first_of_isDigit (isDigit_iff.mp hc)]

theorem firstKind_bang (rest : List Char) :
    firstKind ('!' :: rest) = .bang ∨ firstKind ('!' :: rest) = .notEq := by
  by_cases hrest : rest.head? = some '='
  · exact Or.inr (by simp [firstKind, isBlank, Lexeme.first, isWordStart, hrest])
  · exact Or.inl (by simp [firstKind, isBlank, Lexeme.first, isWordStart, Lexeme.symbol?, hrest])

theorem IsNumeral.firstKind_append
    {digits : List Char} (h : IsNumeral digits) (rest : List Char) :
    firstKind (digits ++ rest) = .int := by
  obtain ⟨c, tail, rfl⟩ := List.exists_cons_of_ne_nil h.ne_nil
  exact firstKind_digit (h.isDigit c List.mem_cons_self) (tail ++ rest)

theorem firstKind_name_append
    {x : String} (hx : isName x = true) {rest : List Char} (hrest : Separated rest) :
    firstKind (x.toList ++ rest) = .ident := by
  obtain ⟨c, tail, htext, hc, htail, hkeyword⟩ := exists_toList_eq_of_isName hx
  rw [htext, List.cons_append, firstKind_word hc htail hrest, ← htext, String.ofList_toList,
    ofWord_of_not_mem_keywords hkeyword]

theorem firstKind_int_append (n : Integer) (rest : List Char) :
    firstKind (n.render.toList ++ rest) = (Expr.int n).firstKind := by
  rw [Expr.firstKind]
  by_cases hn : n.toInt < 0
  · rw [if_pos hn, Integer.render_of_neg hn, String.toList_append]
    rfl
  · rw [if_neg hn, Integer.render_of_nonneg (Int.not_lt.mp hn)]
    exact (isNumeral_repr _).firstKind_append rest

theorem firstKind_expr_append
    {e : Expr} (he : e.IsNamed) {rest : List Char} (hrest : Separated rest) :
    firstKind (e.render.toList ++ rest) = e.firstKind := by
  cases e with
  | name x => exact firstKind_name_append (isNamed_name.mp he) hrest
  | int n => exact firstKind_int_append n rest
  | bool b =>
      cases b with
      | true => exact @firstKind_word 't' "rue".toList rest rfl (List.all_eq_true.mp rfl) hrest
      | false => exact @firstKind_word 'f' "alse".toList rest rfl (List.all_eq_true.mp rfl) hrest
  | _ =>
      simp only [Expr.render, String.toList_append, List.append_assoc]
      rfl

theorem firstKind_stmt_append
    {s : Stmt} (hs : s.IsNamed) {rest : List Char} (hrest : Separated rest) :
    firstKind (s.render.toList ++ rest) = s.firstKind := by
  cases s with
  | expr e => exact firstKind_expr_append (isNamed_expr.mp hs) hrest
  | block b =>
      rw [Stmt.render, Stmt.renderBraced]
      split
      · rfl
      · simp only [String.toList_append, List.append_assoc]
        rfl
  | _ =>
      simp only [Stmt.render, String.toList_append, List.append_assoc]
      rfl

/-! ## Where a phrase ends -/

/-- A text that does not go on with an expression or a statement before it. -/
structure Detached (rest : List Char) : Prop where
  separated : Separated rest
  firstKind_ne : firstKind rest ≠ .elseWord

/-- A text that starts with the end of a block or of the whole text. -/
structure Closes (rest : List Char) : Prop where
  separated : Separated rest
  firstKind : firstKind rest = .eof ∨ firstKind rest = .rbrace

theorem Closes.detached {rest : List Char} (h : Closes rest) : Detached rest := by
  refine ⟨h.separated, ?_⟩
  rcases h.firstKind with hkind | hkind
  all_goals
    rw [hkind]
    decide

theorem closes_nil : Closes [] :=
  ⟨separated_nil, Or.inl rfl⟩

theorem closes_rbrace (rest : List Char) : Closes (" \x7d".toList ++ rest) :=
  ⟨separated_cons rfl _, Or.inr rfl⟩

theorem separated_assign (rest : List Char) : Separated (" = ".toList ++ rest) :=
  separated_cons rfl _

theorem detached_rparen (rest : List Char) : Detached (')' :: rest) :=
  ⟨separated_cons rfl _, TokenKind.noConfusion⟩

theorem detached_semicolon (rest : List Char) : Detached (';' :: rest) :=
  ⟨separated_cons rfl _, TokenKind.noConfusion⟩

theorem detached_binaryOp (op : BinaryOp) (rest : List Char) :
    Detached (' ' :: (op.symbol.toList ++ ' ' :: rest)) := by
  refine ⟨separated_cons rfl _, ?_⟩
  cases op
  all_goals exact TokenKind.noConfusion

theorem Expr.startsExpression_firstKind (e : Expr) :
    Grammar.startsExpression e.firstKind = true := by
  cases e with
  | int n =>
      rw [firstKind]
      split
      · rfl
      · rfl
  | bool b => cases b <;> rfl
  | _ => rfl

theorem Expr.firstKind_ne_of_eq_false
    (e : Expr) {kind : TokenKind} (h : Grammar.startsExpression kind = false) :
    e.firstKind ≠ kind := by
  rintro rfl
  exact absurd e.startsExpression_firstKind (by simp [h])

theorem Stmt.startsStatement_firstKind (s : Stmt) :
    Grammar.startsStatement s.firstKind = true := by
  cases s with
  | expr e => exact Grammar.startsStatement_of_startsExpression e.startsExpression_firstKind
  | _ => rfl

/-! ## Words, numbers and operators -/

/-- Two runs of characters of one sort, each followed by something else, are told
apart by their texts. -/
theorem append_inj_of_separated
    {q : Char → Bool} {u v rest rest' : List Char}
    (hu : ∀ c ∈ u, q c = true) (hv : ∀ c ∈ v, q c = true)
    (hrest : ∀ c ∈ rest.head?, q c = false) (hrest' : ∀ c ∈ rest'.head?, q c = false)
    (h : u ++ rest = v ++ rest') : u = v ∧ rest = rest' := by
  have huv : u = v := by
    rw [← takeWhile_append_of_separated hu hrest, h, takeWhile_append_of_separated hv hrest']
  refine ⟨huv, ?_⟩
  rw [huv] at h
  exact List.append_cancel_left h

theorem name_append_inj
    {x y : String} (hx : isName x = true) (hy : isName y = true) {rest rest' : List Char}
    (hrest : Separated rest) (hrest' : Separated rest')
    (h : x.toList ++ rest = y.toList ++ rest') : x = y ∧ rest = rest' := by
  obtain ⟨hxy, hrests⟩ := append_inj_of_separated (isWordChar_of_mem_name hx)
    (isWordChar_of_mem_name hy) hrest hrest' h
  exact ⟨String.toList_injective hxy, hrests⟩

theorem repr_append_inj
    {m n : Nat} {rest rest' : List Char} (hrest : Separated rest) (hrest' : Separated rest')
    (h : m.repr.toList ++ rest = n.repr.toList ++ rest') :
    m.repr = n.repr ∧ rest = rest' := by
  obtain ⟨hdigits, hrests⟩ := append_inj_of_separated (isNumeral_repr m).isWordChar
    (isNumeral_repr n).isWordChar hrest hrest' h
  exact ⟨String.toList_injective hdigits, hrests⟩

theorem Integer.render_append_inj
    {m n : Integer} {rest rest' : List Char} (hrest : Separated rest) (hrest' : Separated rest')
    (h : m.render.toList ++ rest = n.render.toList ++ rest') : m = n ∧ rest = rest' := by
  have hkinds : (Expr.int m).firstKind = (Expr.int n).firstKind := by
    rw [← firstKind_int_append m rest, h, firstKind_int_append]
  rw [Expr.firstKind, Expr.firstKind] at hkinds
  by_cases hm : m.toInt < 0
  · have hn : n.toInt < 0 := by
      by_contra hn
      simp [hm, hn] at hkinds
    have htexts := h
    rw [render_of_neg hm, render_of_neg hn, String.toList_append, String.toList_append,
      List.append_assoc, List.append_assoc] at htexts
    obtain ⟨hdigits, hrests⟩ :=
      repr_append_inj hrest hrest' (List.append_cancel_left htexts)
    refine ⟨eq_of_render_eq ?_, hrests⟩
    rw [render_of_neg hm, render_of_neg hn, hdigits]
  · have hn : ¬n.toInt < 0 := by
      intro hn
      simp [hm, hn] at hkinds
    have htexts := h
    rw [render_of_nonneg (Int.not_lt.mp hm), render_of_nonneg (Int.not_lt.mp hn)] at htexts
    obtain ⟨hdigits, hrests⟩ := repr_append_inj hrest hrest' htexts
    refine ⟨eq_of_render_eq ?_, hrests⟩
    rw [render_of_nonneg (Int.not_lt.mp hm), render_of_nonneg (Int.not_lt.mp hn), hdigits]

theorem UnaryOp.symbol_append_inj
    {op op' : UnaryOp} {rest rest' : List Char}
    (h : op.symbol.toList ++ rest = op'.symbol.toList ++ rest') : op = op' ∧ rest = rest' := by
  cases op <;> cases op' <;> simp_all [symbol]

theorem BinaryOp.symbol_injective : Function.Injective BinaryOp.symbol := by
  have htable : ∀ op ∈ all, ∀ op' ∈ all, op.symbol = op'.symbol → op = op' := by
    decide
  intro op op' h
  exact htable op op.mem_all op' op'.mem_all h

theorem BinaryOp.symbol_append_inj
    {op op' : BinaryOp} {rest rest' : List Char}
    (h : op.symbol.toList ++ ' ' :: rest = op'.symbol.toList ++ ' ' :: rest') :
    op = op' ∧ rest = rest' := by
  have hblank (op : BinaryOp) : ∀ c ∈ op.symbol.toList, (c != ' ') = true := by
    refine List.all_eq_true.mp ?_
    cases op <;> rfl
  obtain ⟨hsymbols, hrests⟩ :=
    append_inj_of_separated (hblank op) (hblank op') (by simp) (by simp) h
  exact ⟨symbol_injective (String.toList_injective hsymbols), List.tail_eq_of_cons_eq hrests⟩

/-! ## The texts of phrases -/

/-- The texts of statements, with a space in front of each one. -/
def Stmt.spaced (b : List Stmt) : List Char :=
  b.flatMap fun s => ' ' :: s.render.toList

section Texts

variable {rest : List Char}

theorem render_unary_append (op : UnaryOp) (e : Expr) :
    (Expr.unary op e).render.toList ++ rest =
      '(' :: (op.symbol.toList ++ (e.render.toList ++ ')' :: rest)) := by
  simp [Expr.render]

theorem render_binary_append (op : BinaryOp) (l r : Expr) :
    (Expr.binary op l r).render.toList ++ rest =
      '(' :: (l.render.toList ++
        ' ' :: (op.symbol.toList ++ ' ' :: (r.render.toList ++ ')' :: rest))) := by
  simp [Expr.render]

theorem render_ifThen_append (c : Expr) (t : Block) :
    (Expr.ifThen c t).render.toList ++ rest =
      "if (".toList ++ (c.render.toList ++ ')' :: ' ' :: (t.render.toList ++ rest)) := by
  simp [Expr.render, Block.render]

theorem render_ifElse_append (c : Expr) (t u : Block) :
    (Expr.ifElse c t u).render.toList ++ rest =
      "if (".toList ++ (c.render.toList ++
        ')' :: ' ' :: (t.render.toList ++ (" else ".toList ++ (u.render.toList ++ rest)))) := by
  simp [Expr.render, Block.render]

theorem render_bind_append (x : String) (e : Expr) :
    (Stmt.bind x e).render.toList ++ rest =
      "let ".toList ++ (x.toList ++ (" = ".toList ++ (e.render.toList ++ ';' :: rest))) := by
  simp [Stmt.render]

theorem render_ret_append (e : Expr) :
    (Stmt.ret e).render.toList ++ rest =
      "return ".toList ++ (e.render.toList ++ ';' :: rest) := by
  simp [Stmt.render]

theorem spaced_cons_append (s : Stmt) (b : List Stmt) :
    Stmt.spaced (s :: b) ++ rest = ' ' :: (s.render.toList ++ (Stmt.spaced b ++ rest)) := by
  simp [Stmt.spaced]

theorem cons_intercalate_eq_spaced (s : Stmt) (b : List Stmt) :
    ' ' :: (" ".intercalate (Stmt.renderEach (s :: b))).toList = Stmt.spaced (s :: b) := by
  rw [Stmt.renderEach_eq_map]
  induction b generalizing s with
  | nil => simp [Stmt.spaced]
  | cons next b ih =>
      rw [List.map_cons, List.map_cons, String.intercalate_cons_cons, ← List.map_cons,
        String.toList_append, String.toList_append]
      have hnext := ih next
      rw [Stmt.spaced, List.flatMap_cons, ← Stmt.spaced, ← hnext]
      simp

theorem render_block_nil_append : (Block.render []).toList ++ rest = '\x7b' :: '\x7d' :: rest :=
  rfl

theorem render_block_cons_append (s : Stmt) (b : List Stmt) :
    (Block.render (s :: b)).toList ++ rest =
      '\x7b' :: (Stmt.spaced (s :: b) ++ (" \x7d".toList ++ rest)) := by
  rw [← cons_intercalate_eq_spaced]
  simp [Block.render, Stmt.renderBraced, Stmt.renderEach]

end Texts

/-! ## Unique reading -/

/-- Whatever follows, the text of this expression starts with no other expression. -/
def Expr.ReadsUniquely (e : Expr) : Prop :=
  ∀ {e' : Expr} {rest rest' : List Char}, e.IsNamed → e'.IsNamed → Detached rest →
    Detached rest' → e.render.toList ++ rest = e'.render.toList ++ rest' → e = e' ∧ rest = rest'

/-- Whatever follows, the text of this statement starts with no other statement. -/
def Stmt.ReadsUniquely (s : Stmt) : Prop :=
  ∀ {s' : Stmt} {rest rest' : List Char}, s.IsNamed → s'.IsNamed → Detached rest →
    Detached rest' → s.render.toList ++ rest = s'.render.toList ++ rest' → s = s' ∧ rest = rest'

/-- Up to the end of their block, the text of these statements is that of no others. -/
def Stmt.AllReadUniquely (b : List Stmt) : Prop :=
  ∀ {b' : List Stmt} {rest rest' : List Char}, AreNamed b → AreNamed b' → Closes rest →
    Closes rest' → spaced b ++ rest = spaced b' ++ rest' → b = b' ∧ rest = rest'

/-- Whatever follows, the text of this block starts with no other block. -/
def Block.ReadsUniquely (b : Block) : Prop :=
  ∀ {b' : Block} {rest rest' : List Char}, Stmt.AreNamed b → Stmt.AreNamed b' →
    b.render.toList ++ rest = b'.render.toList ++ rest' → b = b' ∧ rest = rest'

theorem firstKind_eq_of_expr_append_eq
    {e e' : Expr} {rest rest' : List Char} (he : e.IsNamed) (he' : e'.IsNamed)
    (hrest : Separated rest) (hrest' : Separated rest')
    (h : e.render.toList ++ rest = e'.render.toList ++ rest') : e.firstKind = e'.firstKind := by
  rw [← firstKind_expr_append he hrest, h, firstKind_expr_append he' hrest']

theorem firstKind_eq_of_stmt_append_eq
    {s s' : Stmt} {rest rest' : List Char} (hs : s.IsNamed) (hs' : s'.IsNamed)
    (hrest : Separated rest) (hrest' : Separated rest')
    (h : s.render.toList ++ rest = s'.render.toList ++ rest') : s.firstKind = s'.firstKind := by
  rw [← firstKind_stmt_append hs hrest, h, firstKind_stmt_append hs' hrest']

namespace Expr

variable {e : Expr}

/-- An exclamation mark is always inside of parentheses. -/
theorem firstKind_ne_bang (e : Expr) : e.firstKind ≠ .bang := by
  cases e <;> simp [firstKind, ite_eq_iff]

theorem eq_name_of_firstKind (h : e.firstKind = .ident) : ∃ x, e = .name x := by
  cases e with
  | name x => exact ⟨x, rfl⟩
  | _ => simp [firstKind, ite_eq_iff] at h

theorem eq_neg_int_of_firstKind (h : e.firstKind = .minus) : ∃ n, e = .int n ∧ n.toInt < 0 := by
  cases e with
  | int n => exact ⟨n, rfl, by_contra fun hn => by simp [firstKind, hn] at h⟩
  | _ => simp [firstKind, ite_eq_iff] at h

theorem eq_nonneg_int_of_firstKind (h : e.firstKind = .int) : ∃ n, e = .int n ∧ 0 ≤ n.toInt := by
  cases e with
  | int n => exact ⟨n, rfl, Int.not_lt.mp fun hn => by simp [firstKind, hn] at h⟩
  | _ => simp [firstKind, ite_eq_iff] at h

theorem eq_bool_of_firstKind {b : Bool} (h : e.firstKind = (Expr.bool b).firstKind) :
    e = .bool b := by
  cases e with
  | bool c => cases b <;> cases c <;> simp_all [firstKind]
  | _ => cases b <;> simp [firstKind, ite_eq_iff] at h

theorem eq_operation_of_firstKind (h : e.firstKind = .lparen) :
    (∃ op f, e = .unary op f) ∨ ∃ op l r, e = .binary op l r := by
  cases e with
  | unary op f => exact Or.inl ⟨op, f, rfl⟩
  | binary op l r => exact Or.inr ⟨op, l, r, rfl⟩
  | _ => simp [firstKind, ite_eq_iff] at h

theorem eq_conditional_of_firstKind (h : e.firstKind = .ifWord) :
    (∃ c t, e = .ifThen c t) ∨ ∃ c t u, e = .ifElse c t u := by
  cases e with
  | ifThen c t => exact Or.inl ⟨c, t, rfl⟩
  | ifElse c t u => exact Or.inr ⟨c, t, u, rfl⟩
  | _ => simp [firstKind, ite_eq_iff] at h

end Expr

namespace Stmt

variable {s : Stmt}

theorem eq_bind_of_firstKind (h : s.firstKind = .letWord) : ∃ x e, s = .bind x e := by
  cases s with
  | bind x e => exact ⟨x, e, rfl⟩
  | expr e => exact absurd h (e.firstKind_ne_of_eq_false rfl)
  | _ => cases h

theorem eq_ret_of_firstKind (h : s.firstKind = .returnWord) : ∃ e, s = .ret e := by
  cases s with
  | ret e => exact ⟨e, rfl⟩
  | expr e => exact absurd h (e.firstKind_ne_of_eq_false rfl)
  | _ => cases h

theorem eq_block_of_firstKind (h : s.firstKind = .lbrace) : ∃ b, s = .block b := by
  cases s with
  | block b => exact ⟨b, rfl⟩
  | expr e => exact absurd h (e.firstKind_ne_of_eq_false rfl)
  | _ => cases h

theorem eq_expr_of_firstKind (h : Grammar.startsExpression s.firstKind = true) :
    ∃ e, s = .expr e := by
  cases s with
  | expr e => exact ⟨e, rfl⟩
  | _ => cases h

end Stmt

theorem readsUniquely_name (x : String) : (Expr.name x).ReadsUniquely := by
  intro e' rest rest' he he' hrest hrest' h
  obtain ⟨y, rfl⟩ := Expr.eq_name_of_firstKind
    (firstKind_eq_of_expr_append_eq he he' hrest.separated hrest'.separated h).symm
  obtain ⟨rfl, hrests⟩ := name_append_inj (isNamed_name.mp he) (isNamed_name.mp he')
    hrest.separated hrest'.separated h
  exact ⟨rfl, hrests⟩

theorem readsUniquely_int (n : Integer) : (Expr.int n).ReadsUniquely := by
  intro e' rest rest' he he' hrest hrest' h
  have hkinds := firstKind_eq_of_expr_append_eq he he' hrest.separated hrest'.separated h
  obtain ⟨m, rfl⟩ : ∃ m, e' = .int m := by
    by_cases hn : n.toInt < 0
    · obtain ⟨m, hm, -⟩ := Expr.eq_neg_int_of_firstKind (hkinds.symm.trans (if_pos hn))
      exact ⟨m, hm⟩
    · obtain ⟨m, hm, -⟩ := Expr.eq_nonneg_int_of_firstKind (hkinds.symm.trans (if_neg hn))
      exact ⟨m, hm⟩
  obtain ⟨rfl, hrests⟩ :=
    Integer.render_append_inj hrest.separated hrest'.separated h
  exact ⟨rfl, hrests⟩

theorem readsUniquely_bool (b : Bool) : (Expr.bool b).ReadsUniquely := by
  intro e' rest rest' he he' hrest hrest' h
  obtain rfl := Expr.eq_bool_of_firstKind
    (firstKind_eq_of_expr_append_eq he he' hrest.separated hrest'.separated h).symm
  exact ⟨rfl, List.append_cancel_left h⟩

/-- A prefix operator and its operand are not the start of an infix operation.  A
minus could be the sign of the left operand, but then a digit sequence would end
both in front of a parenthesis and in front of a space. -/
theorem render_unary_append_ne
    {op : UnaryOp} {op' : BinaryOp} {e l r : Expr} (he : e.IsNamed) (hl : l.IsNamed)
    {rest rest' : List Char} :
    (Expr.unary op e).render.toList ++ rest ≠ (Expr.binary op' l r).render.toList ++ rest' := by
  intro h
  rw [render_unary_append, render_binary_append] at h
  have hafter := List.tail_eq_of_cons_eq h
  have hblank := detached_binaryOp op' (r.render.toList ++ ')' :: rest')
  have hparen := detached_rparen rest
  have hkind := firstKind_expr_append hl hblank.separated
  rw [← hafter] at hkind
  cases op with
  | not =>
      rcases firstKind_bang (e.render.toList ++ ')' :: rest) with hbang | hbang
      · exact absurd (hkind.symm.trans hbang) l.firstKind_ne_bang
      · exact absurd (hkind.symm.trans hbang) (l.firstKind_ne_of_eq_false rfl)
  | neg =>
      have hminus : l.firstKind = .minus := hkind.symm
      obtain ⟨n, rfl, hn⟩ := Expr.eq_neg_int_of_firstKind hminus
      rw [Expr.render, Integer.render_of_neg hn, String.toList_append, List.append_assoc] at hafter
      have hdigits := List.append_cancel_left hafter
      have hint : e.firstKind = .int := by
        rw [← firstKind_expr_append he hparen.separated, hdigits]
        exact (isNumeral_repr _).firstKind_append _
      obtain ⟨m, rfl, hm⟩ := Expr.eq_nonneg_int_of_firstKind hint
      rw [Expr.render, Integer.render_of_nonneg hm] at hdigits
      have hrests := (repr_append_inj hparen.separated hblank.separated hdigits).2
      simp at hrests

theorem readsUniquely_unary
    {op : UnaryOp} {e : Expr} (hread : e.ReadsUniquely) : (Expr.unary op e).ReadsUniquely := by
  intro e' rest rest' he he' hrest hrest' h
  have hkind : e'.firstKind = .lparen :=
    (firstKind_eq_of_expr_append_eq he he' hrest.separated hrest'.separated h).symm
  rcases Expr.eq_operation_of_firstKind hkind with ⟨op', f, rfl⟩ | ⟨op', l, r, rfl⟩
  · rw [render_unary_append, render_unary_append] at h
    obtain ⟨rfl, hoperand⟩ := UnaryOp.symbol_append_inj (List.tail_eq_of_cons_eq h)
    obtain ⟨rfl, hrests⟩ := hread (isNamed_unary.mp he) (isNamed_unary.mp he')
      (detached_rparen rest) (detached_rparen rest') hoperand
    exact ⟨rfl, List.tail_eq_of_cons_eq hrests⟩
  · exact absurd h
      (render_unary_append_ne (isNamed_unary.mp he) (isNamed_binary.mp he').1)

theorem readsUniquely_binary
    {op : BinaryOp} {l r : Expr} (hl : l.ReadsUniquely) (hr : r.ReadsUniquely) :
    (Expr.binary op l r).ReadsUniquely := by
  intro e' rest rest' he he' hrest hrest' h
  have hkind : e'.firstKind = .lparen :=
    (firstKind_eq_of_expr_append_eq he he' hrest.separated hrest'.separated h).symm
  obtain ⟨hnamedl, hnamedr⟩ := isNamed_binary.mp he
  rcases Expr.eq_operation_of_firstKind hkind with ⟨op', f, rfl⟩ | ⟨op', l', r', rfl⟩
  · exact absurd h.symm (render_unary_append_ne (isNamed_unary.mp he') hnamedl)
  · obtain ⟨hnamedl', hnamedr'⟩ := isNamed_binary.mp he'
    rw [render_binary_append, render_binary_append] at h
    obtain ⟨rfl, hop⟩ := hl hnamedl hnamedl' (detached_binaryOp op _) (detached_binaryOp op' _)
      (List.tail_eq_of_cons_eq h)
    obtain ⟨rfl, hright⟩ := BinaryOp.symbol_append_inj (List.tail_eq_of_cons_eq hop)
    obtain ⟨rfl, hrests⟩ :=
      hr hnamedr hnamedr' (detached_rparen rest) (detached_rparen rest') hright
    exact ⟨rfl, List.tail_eq_of_cons_eq hrests⟩

/-- The condition of a conditional and the block behind it are told by the text. -/
theorem condition_append_inj
    {c c' : Expr} {t t' : Block} (hc : c.ReadsUniquely) (ht : t.ReadsUniquely)
    (hnamedc : c.IsNamed) (hnamedc' : c'.IsNamed) (hnamedt : Stmt.AreNamed t)
    (hnamedt' : Stmt.AreNamed t') {rest rest' : List Char}
    (h : "if (".toList ++ (c.render.toList ++ ')' :: ' ' :: (t.render.toList ++ rest)) =
      "if (".toList ++ (c'.render.toList ++ ')' :: ' ' :: (t'.render.toList ++ rest'))) :
    c = c' ∧ t = t' ∧ rest = rest' := by
  obtain ⟨rfl, hafter⟩ :=
    hc hnamedc hnamedc' (detached_rparen _) (detached_rparen _) (List.append_cancel_left h)
  obtain ⟨rfl, hrests⟩ :=
    ht hnamedt hnamedt' (List.tail_eq_of_cons_eq (List.tail_eq_of_cons_eq hafter))
  exact ⟨rfl, rfl, hrests⟩

theorem not_detached_else (text : List Char) : ¬Detached (" else ".toList ++ text) :=
  fun h => h.firstKind_ne (@firstKind_word 'e' "lse".toList (' ' :: text) rfl
    (List.all_eq_true.mp rfl) (separated_cons rfl _))

theorem readsUniquely_ifThen
    {c : Expr} {t : Block} (hc : c.ReadsUniquely) (ht : t.ReadsUniquely) :
    (Expr.ifThen c t).ReadsUniquely := by
  intro e' rest rest' he he' hrest hrest' h
  have hkind : e'.firstKind = .ifWord :=
    (firstKind_eq_of_expr_append_eq he he' hrest.separated hrest'.separated h).symm
  obtain ⟨hnamedc, hnamedt⟩ := isNamed_ifThen.mp he
  rcases Expr.eq_conditional_of_firstKind hkind with ⟨c', t', rfl⟩ | ⟨c', t', u', rfl⟩
  · obtain ⟨hnamedc', hnamedt'⟩ := isNamed_ifThen.mp he'
    rw [render_ifThen_append, render_ifThen_append] at h
    obtain ⟨rfl, rfl, hrests⟩ :=
      condition_append_inj hc ht hnamedc hnamedc' hnamedt hnamedt' h
    exact ⟨rfl, hrests⟩
  · obtain ⟨hnamedc', hnamedt', -⟩ := isNamed_ifElse.mp he'
    rw [render_ifThen_append, render_ifElse_append] at h
    -- Behind the first conditional there would have to be an `else`.
    obtain ⟨-, -, rfl⟩ := condition_append_inj hc ht hnamedc hnamedc' hnamedt hnamedt' h
    exact absurd hrest (not_detached_else _)

theorem readsUniquely_ifElse
    {c : Expr} {t u : Block} (hc : c.ReadsUniquely) (ht : t.ReadsUniquely)
    (hu : u.ReadsUniquely) : (Expr.ifElse c t u).ReadsUniquely := by
  intro e' rest rest' he he' hrest hrest' h
  have hkind : e'.firstKind = .ifWord :=
    (firstKind_eq_of_expr_append_eq he he' hrest.separated hrest'.separated h).symm
  obtain ⟨hnamedc, hnamedt, hnamedu⟩ := isNamed_ifElse.mp he
  rcases Expr.eq_conditional_of_firstKind hkind with ⟨c', t', rfl⟩ | ⟨c', t', u', rfl⟩
  · obtain ⟨hnamedc', hnamedt'⟩ := isNamed_ifThen.mp he'
    rw [render_ifElse_append, render_ifThen_append] at h
    obtain ⟨-, -, rfl⟩ := condition_append_inj hc ht hnamedc hnamedc' hnamedt hnamedt' h
    exact absurd hrest' (not_detached_else _)
  · obtain ⟨hnamedc', hnamedt', hnamedu'⟩ := isNamed_ifElse.mp he'
    rw [render_ifElse_append, render_ifElse_append] at h
    obtain ⟨rfl, rfl, helse⟩ := condition_append_inj hc ht hnamedc hnamedc' hnamedt hnamedt' h
    obtain ⟨rfl, hrests⟩ := hu hnamedu hnamedu' (List.append_cancel_left helse)
    exact ⟨rfl, hrests⟩

theorem readsUniquely_bind
    {x : String} {e : Expr} (hread : e.ReadsUniquely) : (Stmt.bind x e).ReadsUniquely := by
  intro s' rest rest' hs hs' hrest hrest' h
  have hkind := firstKind_eq_of_stmt_append_eq hs hs' hrest.separated hrest'.separated h
  obtain ⟨y, f, rfl⟩ := Stmt.eq_bind_of_firstKind hkind.symm
  obtain ⟨hx, he⟩ := isNamed_bind.mp hs
  obtain ⟨hy, hf⟩ := isNamed_bind.mp hs'
  rw [render_bind_append, render_bind_append] at h
  obtain ⟨rfl, hvalue⟩ := name_append_inj hx hy (separated_assign _) (separated_assign _)
    (List.append_cancel_left h)
  obtain ⟨rfl, hrests⟩ := hread he hf (detached_semicolon rest) (detached_semicolon rest')
    (List.append_cancel_left hvalue)
  exact ⟨rfl, List.tail_eq_of_cons_eq hrests⟩

theorem readsUniquely_ret
    {e : Expr} (hread : e.ReadsUniquely) : (Stmt.ret e).ReadsUniquely := by
  intro s' rest rest' hs hs' hrest hrest' h
  have hkind := firstKind_eq_of_stmt_append_eq hs hs' hrest.separated hrest'.separated h
  obtain ⟨f, rfl⟩ := Stmt.eq_ret_of_firstKind hkind.symm
  rw [render_ret_append, render_ret_append] at h
  obtain ⟨rfl, hrests⟩ := hread (isNamed_ret.mp hs) (isNamed_ret.mp hs')
    (detached_semicolon rest) (detached_semicolon rest') (List.append_cancel_left h)
  exact ⟨rfl, List.tail_eq_of_cons_eq hrests⟩

theorem readsUniquely_expr
    {e : Expr} (hread : e.ReadsUniquely) : (Stmt.expr e).ReadsUniquely := by
  intro s' rest rest' hs hs' hrest hrest' h
  have hkind := firstKind_eq_of_stmt_append_eq hs hs' hrest.separated hrest'.separated h
  have hstart : Grammar.startsExpression s'.firstKind = true := by
    rw [← hkind]
    exact e.startsExpression_firstKind
  obtain ⟨f, rfl⟩ := Stmt.eq_expr_of_firstKind hstart
  obtain ⟨rfl, hrests⟩ := hread (isNamed_expr.mp hs) (isNamed_expr.mp hs') hrest hrest' h
  exact ⟨rfl, hrests⟩

theorem readsUniquely_block
    {b : Block} (hread : b.ReadsUniquely) : (Stmt.block b).ReadsUniquely := by
  intro s' rest rest' hs hs' hrest hrest' h
  have hkind := firstKind_eq_of_stmt_append_eq hs hs' hrest.separated hrest'.separated h
  obtain ⟨c, rfl⟩ := Stmt.eq_block_of_firstKind hkind.symm
  obtain ⟨rfl, hrests⟩ := hread (isNamed_block.mp hs) (isNamed_block.mp hs') h
  exact ⟨rfl, hrests⟩

/-! ## Sequences of statements -/

theorem firstKind_spaced_cons_append
    {s : Stmt} {b : List Stmt} (hs : s.IsNamed) {rest : List Char}
    (hrest : Separated (Stmt.spaced b ++ rest)) :
    firstKind (Stmt.spaced (s :: b) ++ rest) = s.firstKind := by
  rw [spaced_cons_append]
  exact firstKind_stmt_append hs hrest

theorem separated_spaced_append
    (b : List Stmt) {rest : List Char} (hrest : Separated rest) :
    Separated (Stmt.spaced b ++ rest) := by
  cases b with
  | nil => exact hrest
  | cons s b =>
      rw [spaced_cons_append]
      exact separated_cons rfl _

theorem detached_spaced_append
    {b : List Stmt} (hb : Stmt.AreNamed b) {rest : List Char} (hrest : Closes rest) :
    Detached (Stmt.spaced b ++ rest) := by
  refine ⟨separated_spaced_append b hrest.separated, ?_⟩
  cases b with
  | nil => exact hrest.detached.firstKind_ne
  | cons s b =>
      rw [firstKind_spaced_cons_append (areNamed_cons.mp hb).1
        (separated_spaced_append b hrest.separated)]
      intro helse
      exact absurd s.startsStatement_firstKind (by rw [helse]; decide)

/-- A statement is not the end of a sequence. -/
theorem not_closes_spaced_append
    {s : Stmt} {b : List Stmt} (hb : Stmt.AreNamed (s :: b)) {rest : List Char}
    (hrest : Closes rest) : ¬Closes (Stmt.spaced (s :: b) ++ rest) := by
  intro hcloses
  have hkind := firstKind_spaced_cons_append (areNamed_cons.mp hb).1
    (separated_spaced_append b hrest.separated)
  have hstart := s.startsStatement_firstKind
  rw [← hkind] at hstart
  rcases hcloses.firstKind with heof | hbrace
  · exact absurd hstart (by rw [heof]; decide)
  · exact absurd hstart (by rw [hbrace]; decide)

theorem allReadUniquely_nil : Stmt.AllReadUniquely [] := by
  intro b' rest rest' _ hb' hrest hrest' h
  cases b' with
  | nil => exact ⟨rfl, h⟩
  | cons s b' =>
      -- What closes the empty sequence would start with a statement.
      change rest = _ at h
      rw [h] at hrest
      exact absurd hrest (not_closes_spaced_append hb' hrest')

theorem allReadUniquely_cons
    {s : Stmt} {b : List Stmt} (hs : s.ReadsUniquely) (hb : Stmt.AllReadUniquely b) :
    Stmt.AllReadUniquely (s :: b) := by
  intro b' rest rest' hnamed hnamed' hrest hrest' h
  cases b' with
  | nil =>
      change _ = rest' at h
      rw [← h] at hrest'
      exact absurd hrest' (not_closes_spaced_append hnamed hrest)
  | cons s' b' =>
      obtain ⟨hnameds, hnamedb⟩ := areNamed_cons.mp hnamed
      obtain ⟨hnameds', hnamedb'⟩ := areNamed_cons.mp hnamed'
      rw [spaced_cons_append, spaced_cons_append] at h
      obtain ⟨rfl, hafter⟩ := hs hnameds hnameds' (detached_spaced_append hnamedb hrest)
        (detached_spaced_append hnamedb' hrest') (List.tail_eq_of_cons_eq h)
      obtain ⟨rfl, hrests⟩ := hb hnamedb hnamedb' hrest hrest' hafter
      exact ⟨rfl, hrests⟩

theorem render_block_nil_append_ne
    {s : Stmt} {b : List Stmt} {rest rest' : List Char} :
    (Block.render []).toList ++ rest ≠ (Block.render (s :: b)).toList ++ rest' := by
  rw [render_block_nil_append, render_block_cons_append, spaced_cons_append]
  simp

theorem Block.readsUniquely_of_all
    {b : List Stmt} (hread : Stmt.AllReadUniquely b) : Block.ReadsUniquely b := by
  intro b' rest rest' hb hb' h
  cases b with
  | nil =>
      cases b' with
      | nil => exact ⟨rfl, List.append_cancel_left h⟩
      | cons s' b' => exact absurd h render_block_nil_append_ne
  | cons s b =>
      cases b' with
      | nil => exact absurd h.symm render_block_nil_append_ne
      | cons s' b' =>
          rw [render_block_cons_append, render_block_cons_append] at h
          obtain ⟨hbs, hrests⟩ := hread hb hb' (closes_rbrace rest) (closes_rbrace rest')
            (List.tail_eq_of_cons_eq h)
          exact ⟨hbs, List.append_cancel_left hrests⟩

mutual

-- The induction is on the first of the two trees; the other one and what follows both
-- texts are arbitrary, so that the hypotheses apply inside of longer texts.
theorem Expr.readsUniquely : (e : Expr) → e.ReadsUniquely
  | .name x => readsUniquely_name x
  | .int n => readsUniquely_int n
  | .bool b => readsUniquely_bool b
  | .unary _ e => readsUniquely_unary e.readsUniquely
  | .binary _ l r => readsUniquely_binary l.readsUniquely r.readsUniquely
  | .ifThen c t =>
      readsUniquely_ifThen c.readsUniquely
        (Block.readsUniquely_of_all (Stmt.allReadUniquely t))
  | .ifElse c t u =>
      readsUniquely_ifElse c.readsUniquely
        (Block.readsUniquely_of_all (Stmt.allReadUniquely t))
        (Block.readsUniquely_of_all (Stmt.allReadUniquely u))

theorem Stmt.readsUniquely : (s : Stmt) → s.ReadsUniquely
  | .bind _ e => readsUniquely_bind e.readsUniquely
  | .ret e => readsUniquely_ret e.readsUniquely
  | .expr e => readsUniquely_expr e.readsUniquely
  | .block b =>
      readsUniquely_block (Block.readsUniquely_of_all (Stmt.allReadUniquely b))

theorem Stmt.allReadUniquely : (b : List Stmt) → Stmt.AllReadUniquely b
  | [] => allReadUniquely_nil
  | s :: b => allReadUniquely_cons s.readsUniquely (Stmt.allReadUniquely b)

end

/-! ## Programs -/

theorem Program.cons_render {s : Stmt} {b : List Stmt} :
    ' ' :: (render ⟨s :: b⟩).toList = Stmt.spaced (s :: b) :=
  cons_intercalate_eq_spaced s b

/-- No statement has an empty text. -/
theorem Program.statements_eq_nil_of_render_eq
    {p : Program} (hp : p.IsNamed) (h : p.render = "") : p.statements = [] := by
  obtain ⟨_ | ⟨s, b⟩⟩ := p
  · rfl
  · have htext := @Program.cons_render s b
    rw [h] at htext
    have hblank : Closes (Stmt.spaced (s :: b) ++ []) := by
      rw [List.append_nil, ← htext]
      exact ⟨separated_cons rfl _, Or.inl rfl⟩
    exact absurd hblank (not_closes_spaced_append hp closes_nil)

theorem Program.spaced_eq_of_render_eq
    {p q : Program} (hp : p.IsNamed) (hq : q.IsNamed) (h : p.render = q.render) :
    Stmt.spaced p.statements = Stmt.spaced q.statements := by
  obtain ⟨_ | ⟨s, b⟩⟩ := p
  · rw [statements_eq_nil_of_render_eq hq h.symm]
  · obtain ⟨_ | ⟨s', b'⟩⟩ := q
    · rw [statements_eq_nil_of_render_eq hp h]
    · rw [← cons_render, ← cons_render, h]

/-- Two programs with proper names have the same canonical text only if they are
the same program, however deep they are nested. -/
theorem Program.render_eq_render_iff
    {p q : Program} (hp : p.IsNamed) (hq : q.IsNamed) : p.render = q.render ↔ p = q := by
  constructor
  · intro h
    have hspaced := Program.spaced_eq_of_render_eq hp hq h
    obtain ⟨hstatements, -⟩ := Stmt.allReadUniquely p.statements hp hq closes_nil closes_nil
      (congrArg (· ++ []) hspaced)
    cases p
    cases q
    exact congrArg Program.mk hstatements
  · rintro rfl
    rfl

/-- Beyond the nesting that the parser accepts, and with a sign that belongs to a
literal in one program and to an operator in the other. -/
theorem Program.render_ne_of_sign_outside :
    let p : Program := ⟨[.bind "x" ((Expr.unary .neg)^[300] (.int ⟨-5, by decide⟩)),
      .expr (.name "x")]⟩
    let q : Program := ⟨[.bind "x" ((Expr.unary .neg)^[301] (.int ⟨5, by decide⟩)),
      .expr (.name "x")]⟩
    p.IsNamed ∧ q.IsNamed ∧ p.render ≠ q.render := by
  intro p q
  have hp : p.IsNamed := by decide +kernel
  have hq : q.IsNamed := by decide +kernel
  refine ⟨hp, hq, fun h => ?_⟩
  exact absurd ((Program.render_eq_render_iff hp hq).mp h) (by decide +kernel)

end LetLang
