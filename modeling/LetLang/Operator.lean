import LetLang.Token.Basic

/-!
# Operators and how tightly they bind

Prefix and infix operators with their source text, the token kinds that stand
for them, and the ladder of binding strengths that the parser climbs.
-/

namespace LetLang

/-- An operator in front of one operand. -/
inductive UnaryOp where
  | not
  | neg
deriving DecidableEq, Repr

namespace UnaryOp

/-- The source text of the operator. -/
def symbol : UnaryOp → String
  | not => "!"
  | neg => "-"

end UnaryOp

/-- An operator between two operands. -/
inductive BinaryOp where
  | add
  | sub
  | mul
  | div
  | lt
  | gt
  | eq
  | ne
deriving DecidableEq, Repr

namespace BinaryOp

/-- All infix operators. -/
def all : List BinaryOp :=
  [.add, .sub, .mul, .div, .lt, .gt, .eq, .ne]

theorem mem_all (op : BinaryOp) : op ∈ all := by
  cases op <;> decide

/-- The source text of the operator. -/
def symbol : BinaryOp → String
  | add => "+"
  | sub => "-"
  | mul => "*"
  | div => "/"
  | lt => "<"
  | gt => ">"
  | eq => "=="
  | ne => "!="

/-- The operator that a token kind stands for between two operands. -/
def ofKind? : TokenKind → Option BinaryOp
  | .plus => some add
  | .minus => some sub
  | .asterisk => some mul
  | .slash => some div
  | .lt => some lt
  | .gt => some gt
  | .eq => some eq
  | .notEq => some ne
  | _ => none

end BinaryOp

/-- Binding strengths, weakest first. -/
inductive Precedence where
  /-- Weaker than every operator. -/
  | lowest
  /-- Equality and inequality. -/
  | equals
  /-- Comparison. -/
  | lessGreater
  /-- Sum and difference. -/
  | sum
  /-- Product and quotient. -/
  | product
  /-- An operator in front of its operand. -/
  | unary
  /-- Kept for application, which the language does not have. -/
  | call
deriving DecidableEq, Repr

namespace Precedence

/-- The name of a strength in the trace. -/
def name : Precedence → String
  | lowest => "Lowest"
  | equals => "Equals"
  | lessGreater => "LessGreater"
  | sum => "Sum"
  | product => "Product"
  | unary => "Prefix"
  | call => "Call"

/-- The number of weaker strengths. -/
def rank : Precedence → Nat
  | lowest => 0
  | equals => 1
  | lessGreater => 2
  | sum => 3
  | product => 4
  | unary => 5
  | call => 6

instance : LT Precedence where
  lt p q := p.rank < q.rank

instance (p q : Precedence) : Decidable (p < q) :=
  inferInstanceAs (Decidable (p.rank < q.rank))

instance : Ord Precedence where
  compare p q := compare p.rank q.rank

end Precedence

namespace BinaryOp

/-- How tightly an infix operator binds its operands. -/
def precedence : BinaryOp → Precedence
  | eq | ne => .equals
  | lt | gt => .lessGreater
  | add | sub => .sum
  | mul | div => .product

end BinaryOp

namespace Precedence

/-- The strength of a token kind between two operands; a kind that is no infix
operator has the lowest. -/
def ofKind (kind : TokenKind) : Precedence :=
  ((BinaryOp.ofKind? kind).map BinaryOp.precedence).getD lowest

end Precedence

end LetLang
