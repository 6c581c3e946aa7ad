import LetLang.Program.Basic
import LetLang.Proofs.Grammar.Numerals

/-!
# The grammar of the language

The grammar says which lists of tokens are programs and which tree each of them
stands for, without saying how a program is found.  Expressions are stratified:
equality, comparison, sum and product each group to the left over operands of
the next stratum, and the operators in front of an operand come last.  Which tokens
are operators and which texts are integers is said by a table and a rule of the
grammar's own.

A semicolon behind a statement may be left out, but then the next statement must
not start with a minus sign.  A derivation also records its nesting: how many
expressions and blocks have to be open at once while it is read from left to
right.
-/

namespace LetLang

/-- The strata of expressions, loosest first. -/
inductive Stratum where
  | equality
  | comparison
  | sum
  | product
  | unary
  | primary
deriving DecidableEq, Repr

namespace Stratum

/-- The stratum of the operands of a stratum. -/
def tighter? : Stratum → Option Stratum
  | equality => some comparison
  | comparison => some sum
  | sum => some product
  | product => some unary
  | unary => some primary
  | primary => none

/-- The number of looser strata. -/
def rank : Stratum → Nat
  | equality => 0
  | comparison => 1
  | sum => 2
  | product => 3
  | unary => 4
  | primary => 5

theorem rank_of_tighter?_eq_some {σ τ : Stratum} (h : σ.tighter? = some τ) :
    τ.rank = σ.rank + 1 := by
  cases σ <;> cases h <;> rfl

theorem eq_of_rank_eq {σ τ : Stratum} (h : σ.rank = τ.rank) : σ = τ := by
  revert h
  cases σ <;> cases τ <;> decide

theorem exists_tighter?_eq_some {σ τ : Stratum} (h : σ.rank < τ.rank) :
    ∃ ρ, σ.tighter? = some ρ := by
  cases σ with
  | primary => cases τ <;> exact absurd h (by decide)
  | _ => exact ⟨_, rfl⟩

end Stratum

/-- The stratum in which an infix operator stands between its operands. -/
def BinaryOp.stratum : BinaryOp → Stratum
  | eq | ne => .equality
  | lt | gt => .comparison
  | add | sub => .sum
  | mul | div => .product

/-- The operator that a token kind stands for in front of its operand. -/
def UnaryOp.ofKind? : TokenKind → Option UnaryOp
  | .bang => some not
  | .minus => some neg
  | _ => none

namespace Grammar

/-- The kinds of tokens that stand between two operands, and their operators. -/
def binaryOperators : List (TokenKind × BinaryOp) :=
  [(.eq, .eq), (.notEq, .ne), (.lt, .lt), (.gt, .gt), (.plus, .add), (.minus, .sub),
    (.asterisk, .mul), (.slash, .div)]

theorem lookup_binaryOperators (kind : TokenKind) :
    binaryOperators.lookup kind = BinaryOp.ofKind? kind := by
  cases kind <;> rfl

/-- The end of a statement: a semicolon, or nothing, in which case the statement
is open. -/
inductive Ending : List Token → (isOpen : Bool) → Prop
  | semicolon {t : Token} (ht : t.kind = .semicolon) : Ending [t] false
  | omitted : Ending [] true

mutual

/-- The tokens are an expression of the stratum, with this tree and nesting. -/
inductive Expression : Stratum → List Token → Expr → (nesting : Nat) → Prop
  | tighter {σ τ : Stratum} {ts : List Token} {e : Expr} {n : Nat}
      (hστ : σ.tighter? = some τ) (he : Expression τ ts e n) :
      Expression σ ts e n
  | binary {σ τ : Stratum} {op : BinaryOp} {t : Token} {ls rs : List Token}
      {l r : Expr} {m n : Nat}
      (ht : binaryOperators.lookup t.kind = some op) (hσ : op.stratum = σ)
      (hστ : σ.tighter? = some τ)
      (hl : Expression σ ls l m) (hr : Expression τ rs r n) :
      Expression σ (ls ++ t :: rs) (.binary op l r) (max m (1 + n))
  | unary {op : UnaryOp} {t : Token} {ts : List Token} {e : Expr} {n : Nat}
      (ht : UnaryOp.ofKind? t.kind = some op) (he : Expression .unary ts e n) :
      Expression .unary (t :: ts) (.unary op e) (1 + n)
  | name {t : Token} (ht : t.kind = .ident) :
      Expression .primary [t] (.name t.literal) 1
  | int {t : Token} {v : Integer} (ht : t.kind = .int)
      (hv : Writes t.literal.toList v.toInt) :
      Expression .primary [t] (.int v) 1
  | boolTrue {t : Token} (ht : t.kind = .trueWord) :
      Expression .primary [t] (.bool true) 1
  | boolFalse {t : Token} (ht : t.kind = .falseWord) :
      Expression .primary [t] (.bool false) 1
  | group {t u : Token} {ts : List Token} {e : Expr} {n : Nat}
      (ht : t.kind = .lparen) (he : Expression .equality ts e n) (hu : u.kind = .rparen) :
      Expression .primary (t :: (ts ++ [u])) e (1 + n)
  | ifThen {i t u : Token} {cs bs : List Token} {c : Expr} {b : Block} {m n : Nat}
      (hi : i.kind = .ifWord) (ht : t.kind = .lparen)
      (hc : Expression .equality cs c m) (hu : u.kind = .rparen)
      (hb : Braced bs b n) :
      Expression .primary (i :: t :: (cs ++ u :: bs)) (.ifThen c b) (max (1 + m) (1 + n))
  | ifElse {i t u w : Token} {cs bs ds : List Token} {c : Expr} {b d : Block}
      {m n k : Nat}
      (hi : i.kind = .ifWord) (ht : t.kind = .lparen)
      (hc : Expression .equality cs c m) (hu : u.kind = .rparen)
      (hb : Braced bs b n) (hw : w.kind = .elseWord) (hd : Braced ds d k) :
      Expression .primary (i :: t :: (cs ++ u :: (bs ++ w :: ds))) (.ifElse c b d)
        (max (1 + m) (max (1 + n) (1 + k)))

/-- The tokens are a block between its braces. -/
inductive Braced : List Token → Block → (nesting : Nat) → Prop
  | braces {t u : Token} {ts : List Token} {b : Block} {n : Nat}
      (ht : t.kind = .lbrace) (hb : Statements ts b n) (hu : u.kind = .rbrace) :
      Braced (t :: (ts ++ [u])) b (1 + n)

/-- The tokens are a statement, which is open if its semicolon is left out. -/
inductive Statement : List Token → Stmt → (isOpen : Bool) → (nesting : Nat) → Prop
  | bind {k x a : Token} {ts us : List Token} {e : Expr} {isOpen : Bool} {n : Nat}
      (hk : k.kind = .letWord) (hx : x.kind = .ident) (ha : a.kind = .assign)
      (he : Expression .equality ts e n) (hus : Ending us isOpen) :
      Statement (k :: x :: a :: (ts ++ us)) (.bind x.literal e) isOpen n
  | ret {k : Token} {ts us : List Token} {e : Expr} {isOpen : Bool} {n : Nat}
      (hk : k.kind = .returnWord)
      (he : Expression .equality ts e n) (hus : Ending us isOpen) :
      Statement (k :: (ts ++ us)) (.ret e) isOpen n
  | expr {ts us : List Token} {e : Expr} {isOpen : Bool} {n : Nat}
      (he : Expression .equality ts e n) (hus : Ending us isOpen) :
      Statement (ts ++ us) (.expr e) isOpen n
  | block {ts : List Token} {b : Block} {n : Nat} (hb : Braced ts b n) :
      Statement ts (.block b) false n

/-- The tokens are a sequence of statements. -/
inductive Statements : List Token → List Stmt → (nesting : Nat) → Prop
  | nil : Statements [] [] 0
  | cons {ts us : List Token} {s : Stmt} {b : List Stmt} {isOpen : Bool} {m n : Nat}
      (hs : Statement ts s isOpen m)
      (hminus : isOpen = true → ∀ u ∈ us.head?, u.kind ≠ .minus)
      (hb : Statements us b n) :
      Statements (ts ++ us) (s :: b) (max m n)

end

/-- An expression of one stratum is an expression of every looser one. -/
theorem Expression.of_rank_le
    {σ τ : Stratum} {ts : List Token} {e : Expr} {n : Nat}
    (he : Expression τ ts e n) (hστ : σ.rank ≤ τ.rank) : Expression σ ts e n := by
  obtain hlt | heq := Nat.lt_or_eq_of_le hστ
  · obtain ⟨ρ, hρ⟩ := Stratum.exists_tighter?_eq_some hlt
    have hrank := Stratum.rank_of_tighter?_eq_some hρ
    exact .tighter hρ (he.of_rank_le (by omega))
  · exact Stratum.eq_of_rank_eq heq ▸ he
termination_by τ.rank - σ.rank

/-- The tokens are a program with this tree and nesting. -/
def Derives (ts : List Token) (p : Program) (nesting : Nat) : Prop :=
  Statements ts p.statements nesting

/-! ## First tokens -/

/-- Whether an expression can start with a token of this kind. -/
def startsExpression : TokenKind → Bool
  | .ident | .int | .trueWord | .falseWord | .bang | .minus | .lparen | .ifWord => true
  | _ => false

/-- Whether a statement can start with a token of this kind. -/
def startsStatement : TokenKind → Bool
  | .letWord | .returnWord | .lbrace => true
  | kind => startsExpression kind

theorem startsStatement_of_startsExpression
    {kind : TokenKind} (h : startsExpression kind = true) :
    startsStatement kind = true := by
  revert h
  cases kind <;> decide

theorem startsExpression_of_unaryOp
    {kind : TokenKind} {op : UnaryOp} (h : UnaryOp.ofKind? kind = some op) :
    startsExpression kind = true := by
  revert h
  cases op <;> cases kind <;> decide

theorem Expression.exists_head :
    {σ : Stratum} → {ts : List Token} → {e : Expr} → {n : Nat} → Expression σ ts e n →
      ∃ t us, ts = t :: us ∧ startsExpression t.kind = true
  | _, _, _, _, .tighter _ he => he.exists_head
  | _, _, _, _, .binary _ _ _ hl _ => by
      obtain ⟨t, us, rfl, ht⟩ := hl.exists_head
      exact ⟨t, _, rfl, ht⟩
  | _, _, _, _, .unary ht _ => ⟨_, _, rfl, startsExpression_of_unaryOp ht⟩
  | _, _, _, _, .name ht => ⟨_, _, rfl, by rw [ht]; rfl⟩
  | _, _, _, _, .int ht _ => ⟨_, _, rfl, by rw [ht]; rfl⟩
  | _, _, _, _, .boolTrue ht => ⟨_, _, rfl, by rw [ht]; rfl⟩
  | _, _, _, _, .boolFalse ht => ⟨_, _, rfl, by rw [ht]; rfl⟩
  | _, _, _, _, .group ht _ _ => ⟨_, _, rfl, by rw [ht]; rfl⟩
  | _, _, _, _, .ifThen hi _ _ _ _ => ⟨_, _, rfl, by rw [hi]; rfl⟩
  | _, _, _, _, .ifElse hi _ _ _ _ _ _ => ⟨_, _, rfl, by rw [hi]; rfl⟩

theorem Braced.exists_head
    {ts : List Token} {b : Block} {n : Nat} (h : Braced ts b n) :
    ∃ t us, ts = t :: us ∧ t.kind = .lbrace := by
  cases h with
  | braces ht _ _ => exact ⟨_, _, rfl, ht⟩

theorem Statement.exists_head
    {ts : List Token} {st : Stmt} {isOpen : Bool} {n : Nat}
    (h : Statement ts st isOpen n) :
    ∃ t us, ts = t :: us ∧ startsStatement t.kind = true := by
  cases h with
  | bind hk _ _ _ _ => exact ⟨_, _, rfl, by rw [hk]; rfl⟩
  | ret hk _ _ => exact ⟨_, _, rfl, by rw [hk]; rfl⟩
  | expr he _ =>
      obtain ⟨t, us, rfl, ht⟩ := he.exists_head
      exact ⟨t, _, rfl, startsStatement_of_startsExpression ht⟩
  | block hb =>
      obtain ⟨t, us, rfl, ht⟩ := hb.exists_head
      exact ⟨t, us, rfl, by rw [ht]; rfl⟩

theorem Expression.nesting_pos :
    {σ : Stratum} → {ts : List Token} → {e : Expr} → {n : Nat} → Expression σ ts e n →
      0 < n
  | _, _, _, _, .tighter _ he => he.nesting_pos
  | _, _, _, _, .binary _ _ _ _ _ => by omega
  | _, _, _, _, .unary _ _ => by omega
  | _, _, _, _, .name _ => by omega
  | _, _, _, _, .int _ _ => by omega
  | _, _, _, _, .boolTrue _ => by omega
  | _, _, _, _, .boolFalse _ => by omega
  | _, _, _, _, .group _ _ _ => by omega
  | _, _, _, _, .ifThen _ _ _ _ _ => by omega
  | _, _, _, _, .ifElse _ _ _ _ _ _ _ => by omega

end Grammar
end LetLang
