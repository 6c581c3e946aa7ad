import LetLang.Integer
import LetLang.Operator

/-!
# Values

What evaluation produces: integers, booleans and null, and two kinds of signals
that end the evaluation around them.  A return carries the value of the whole
program, an error carries the fault that stopped it.
-/

namespace LetLang

/-- The types that faults mention. -/
inductive ValueType where
  | int
  | bool
  | null
  | ret
  | err
deriving DecidableEq, Repr

namespace ValueType

/-- The name of a type in the wording of faults. -/
def name : ValueType → String
  | int => "INTEGER"
  | bool => "BOOLEAN"
  | null => "NULL"
  | ret => "RETURN_VALUE"
  | err => "ERROR"

end ValueType

/-- Why an evaluation stopped with an error. -/
inductive Fault where
  /-- A name that no scope binds. -/
  | unbound (name : String)
  /-- A prefix operator on an operand of a type that it does not take. -/
  | unaryOperand (op : UnaryOp) (operand : ValueType)
  /-- An infix operator on operands of different types. -/
  | mismatch (op : BinaryOp) (left right : ValueType)
  /-- An infix operator on operands of a type that it does not take. -/
  | binaryOperands (op : BinaryOp) (left right : ValueType)
  /-- A division by zero. -/
  | divisionByZero (dividend : Integer)
  /-- An infix operator whose result is out of range. -/
  | overflow (op : BinaryOp) (left right : Integer)
  /-- A negation whose result is out of range. -/
  | negationOverflow (operand : Integer)
  /-- An expression or block deeper than the limit allows. -/
  | tooDeep (limit : Nat)
  /-- A fault known by its wording alone. -/
  | stated (message : String)
deriving DecidableEq

namespace Fault

/-- The wording of a fault. -/
def message : Fault → String
  | unbound name => "identifier not found: " ++ name
  | unaryOperand op operand => "unknown operator: " ++ op.symbol ++ operand.name
  | mismatch op left right =>
      "type mismatch: " ++ left.name ++ " " ++ op.symbol ++ " " ++ right.name
  | binaryOperands op left right =>
      "unknown operator: " ++ left.name ++ " " ++ op.symbol ++ " " ++ right.name
  | divisionByZero dividend => "division by zero: " ++ dividend.render ++ " / 0"
  | overflow op left right =>
      "integer overflow: " ++ left.render ++ " " ++ op.symbol ++ " " ++ right.render
  | negationOverflow operand => "integer overflow: -(" ++ operand.render ++ ")"
  | tooDeep limit => "maximum evaluation depth exceeded: " ++ limit.repr
  | stated message => message

end Fault

/-- The outcome of an evaluation. -/
inductive Value where
  | int (value : Integer)
  | bool (value : Bool)
  | null
  /-- A return on its way to the end of the program. -/
  | ret (value : Value)
  /-- An error on its way to the end of the program. -/
  | err (fault : Fault)
deriving DecidableEq

namespace Value

/-- The type of a value. -/
def type : Value → ValueType
  | int _ => .int
  | bool _ => .bool
  | null => .null
  | ret _ => .ret
  | err _ => .err

/-- The text that shows a value; a return shows what it carries. -/
def render : Value → String
  | int n => n.render
  | bool b => if b then "true" else "false"
  | null => "null"
  | ret v => v.render
  | err fault => "ERROR: " ++ fault.message

/-- Whether a value ends the evaluation around it. -/
def isSignal : Value → Bool
  | ret _ | err _ => true
  | int _ | bool _ | null => false

/-- Whether a value counts as true in a condition: everything except null,
`false` and zero. -/
def isTruthy : Value → Bool
  | null => false
  | bool b => b
  | int n => n.toInt ≠ 0
  | ret _ | err _ => true

/-- The integer that a value is, if it is one. -/
def int? : Value → Option Integer
  | int n => some n
  | _ => none

/-- The boolean that a value is, if it is one. -/
def bool? : Value → Option Bool
  | bool b => some b
  | _ => none

/-- The fault that a value carries, if it is an error. -/
def fault? : Value → Option Fault
  | err fault => some fault
  | _ => none

/-- Takes one return off a value. -/
def unwrapReturn : Value → Value
  | ret v => v
  | v => v

/-- An integer that may have come out of range. -/
def ofResult (result : Option Integer) (fault : Fault) : Value :=
  match result with
  | some n => int n
  | none => err fault

end Value

end LetLang
