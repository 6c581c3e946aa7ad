import LetLang.Value.Basic

/-!
# Operators on values

Operators never fail to answer: an operand of a wrong type, a division by zero
and a result out of range give an error value.
-/

namespace LetLang

namespace UnaryOp

/-- Negates a truth value.  Null counts as false here and every integer counts
as true, zero included. -/
def applyNot : Value → Value
  | .null => .bool true
  | .bool b => .bool !b
  | _ => .bool false

/-- Negates an integer. -/
def applyNeg : Value → Value
  | .int n => .ofResult n.neg? (.negationOverflow n)
  | v => .err (.unaryOperand .neg v.type)

/-- The value of a prefix operator on an operand. -/
def apply : UnaryOp → Value → Value
  | not => applyNot
  | neg => applyNeg

end UnaryOp

namespace BinaryOp

/-- The value of an infix operator on two integers.  A divisor of zero is
noticed before anything else. -/
def applyInts (op : BinaryOp) (l r : Integer) : Value :=
  match op with
  | add => .ofResult (l.add? r) (.overflow op l r)
  | sub => .ofResult (l.sub? r) (.overflow op l r)
  | mul => .ofResult (l.mul? r) (.overflow op l r)
  | div =>
      if r.toInt = 0 then .err (.divisionByZero l)
      else .ofResult (l.div? r) (.overflow op l r)
  | lt => .bool (l.toInt < r.toInt)
  | gt => .bool (r.toInt < l.toInt)
  | eq => .bool (l.toInt = r.toInt)
  | ne => .bool (l.toInt ≠ r.toInt)

/-- The value of an infix operator on two booleans, which can only be compared. -/
def applyBools (op : BinaryOp) (l r : Bool) : Value :=
  match op with
  | eq => .bool (l == r)
  | ne => .bool (l != r)
  | _ => .err (.binaryOperands op .bool .bool)

/-- The value of an infix operator on two operands. -/
def apply (op : BinaryOp) (left right : Value) : Value :=
  match left, right with
  | .int l, .int r => op.applyInts l r
  | .bool l, .bool r => op.applyBools l r
  | left, right =>
      if left.type = right.type then .err (.binaryOperands op left.type right.type)
      else .err (.mismatch op left.type right.type)

end BinaryOp

end LetLang
