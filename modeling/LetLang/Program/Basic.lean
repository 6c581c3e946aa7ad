import LetLang.Integer
import LetLang.Operator

/-!
# Programs

Expressions and statements form one family: an `if` is an expression and holds
blocks of statements.  Equality of trees is decidable, by a comparison that
walks both trees together.
-/

namespace LetLang

mutual

/-- An expression. -/
inductive Expr where
  /-- A reference to a bound name. -/
  | name (name : String)
  /-- An integer literal. -/
  | int (value : Integer)
  /-- One of the words `true` and `false`. -/
  | bool (value : Bool)
  /-- An operator in front of its operand. -/
  | unary (op : UnaryOp) (operand : Expr)
  /-- An operator between its operands. -/
  | binary (op : BinaryOp) (left right : Expr)
  /-- A conditional without an `else` part. -/
  | ifThen (condition : Expr) (consequence : List Stmt)
  /-- A conditional with an `else` part. -/
  | ifElse (condition : Expr) (consequence alternative : List Stmt)

/-- A statement. -/
inductive Stmt where
  /-- Binds a name to the value of an expression. -/
  | bind (name : String) (value : Expr)
  /-- Ends the program with the value of an expression. -/
  | ret (value : Expr)
  /-- An expression in the place of a statement. -/
  | expr (value : Expr)
  /-- A sequence of statements in braces. -/
  | block (statements : List Stmt)

end

/-- The statements between two braces. -/
abbrev Block := List Stmt

/-- The statements of a whole source text. -/
structure Program where
  /-- The statements, in source order. -/
  statements : List Stmt

mutual

/-- Compares two expressions. -/
def Expr.beq : Expr → Expr → Bool
  | .name x, .name y => x == y
  | .int m, .int n => m == n
  | .bool b, .bool c => b == c
  | .unary o e, .unary p f => o == p && e.beq f
  | .binary o l r, .binary p l' r' => o == p && l.beq l' && r.beq r'
  | .ifThen c t, .ifThen c' t' => c.beq c' && Stmt.beqList t t'
  | .ifElse c t e, .ifElse c' t' e' =>
      c.beq c' && Stmt.beqList t t' && Stmt.beqList e e'
  | _, _ => false

/-- Compares two statements. -/
def Stmt.beq : Stmt → Stmt → Bool
  | .bind x e, .bind y f => x == y && e.beq f
  | .ret e, .ret f => e.beq f
  | .expr e, .expr f => e.beq f
  | .block b, .block c => Stmt.beqList b c
  | _, _ => false

/-- Compares two sequences of statements. -/
def Stmt.beqList : List Stmt → List Stmt → Bool
  | [], [] => true
  | s :: b, t :: c => s.beq t && Stmt.beqList b c
  | _, _ => false

end

mutual

/-- The comparison of expressions decides their equality. -/
theorem Expr.beq_iff : (a b : Expr) → (a.beq b = true ↔ a = b)
  | .name _, b => by cases b <;> simp [Expr.beq]
  | .int _, b => by cases b <;> simp [Expr.beq]
  | .bool _, b => by cases b <;> simp [Expr.beq]
  | .unary _ e, b => by cases b <;> simp [Expr.beq, e.beq_iff]
  | .binary _ l r, b => by
      cases b <;> simp [Expr.beq, l.beq_iff, r.beq_iff, and_assoc]
  | .ifThen c t, b => by
      cases b <;> simp [Expr.beq, c.beq_iff, Stmt.beqList_iff t]
  | .ifElse c t e, b => by
      cases b <;>
        simp [Expr.beq, c.beq_iff, Stmt.beqList_iff t, Stmt.beqList_iff e, and_assoc]

/-- The comparison of statements decides their equality. -/
theorem Stmt.beq_iff : (a b : Stmt) → (a.beq b = true ↔ a = b)
  | .bind _ e, b => by cases b <;> simp [Stmt.beq, e.beq_iff]
  | .ret e, b => by cases b <;> simp [Stmt.beq, e.beq_iff]
  | .expr e, b => by cases b <;> simp [Stmt.beq, e.beq_iff]
  | .block s, b => by cases b <;> simp [Stmt.beq, Stmt.beqList_iff s]

/-- The comparison of sequences decides their equality. -/
theorem Stmt.beqList_iff : (a b : List Stmt) → (Stmt.beqList a b = true ↔ a = b)
  | [], b => by cases b <;> simp [Stmt.beqList]
  | s :: a, b => by cases b <;> simp [Stmt.beqList, s.beq_iff, Stmt.beqList_iff a]

end

instance : DecidableEq Expr := fun a b => decidable_of_iff _ (a.beq_iff b)

instance : DecidableEq Stmt := fun a b => decidable_of_iff _ (a.beq_iff b)

deriving instance DecidableEq for Program

/-- The forms of expressions, as the trace names them. -/
inductive ExprKind where
  | name
  | int
  | bool
  | unary
  | binary
  | conditional
deriving DecidableEq, Repr

namespace ExprKind

/-- The wording of a form of expressions. -/
def label : ExprKind → String
  | name => "identifier"
  | int => "integer literal"
  | bool => "boolean literal"
  | unary => "prefix expression"
  | binary => "infix expression"
  | conditional => "if expression"

end ExprKind

/-- The form of an expression. -/
def Expr.kind : Expr → ExprKind
  | .name _ => .name
  | .int _ => .int
  | .bool _ => .bool
  | .unary .. => .unary
  | .binary .. => .binary
  | .ifThen .. | .ifElse .. => .conditional

end LetLang
