import LetLang.Evaluation
import LetLang.Reading

/-!
# Events of a run

A run of a source text leaves a trace of events: what was read, what was
evaluated, and the fault that stopped it.  An event is shown as a message with
named fields.
-/

namespace LetLang

/-- How much detail an event belongs to. -/
inductive Event.Level where
  | debug
  | trace
deriving DecidableEq, Repr

/-- Something that happened in a run. -/
inductive Event where
  /-- The reading of an expression started. -/
  | reading (visit : Reading.Visit)
  /-- The whole text was read. -/
  | finishedReading (statements errors : Nat)
  /-- The text was accepted as a program. -/
  | accepted (statements : Nat)
  /-- The evaluation of the program started. -/
  | started (statements : Nat)
  /-- The evaluation of an expression started. -/
  | evaluating (visit : Evaluation.Visit)
  /-- The evaluation of the program stopped with a fault. -/
  | failed (fault : Fault)
deriving DecidableEq

namespace Event

/-- The detail that an event belongs to. -/
def level : Event → Level
  | reading _ | evaluating _ => .trace
  | finishedReading .. | accepted _ | started _ | failed _ => .debug

/-- The part of the program that reports an event. -/
def target : Event → String
  | reading _ => "mandrill::parser::expression"
  | finishedReading .. => "mandrill::parser"
  | accepted _ => "mandrill"
  | evaluating _ => "mandrill::eval"
  | started _ | failed _ => "mandrill::eval::stmt"

/-- The message of an event. -/
def message : Event → String
  | reading _ => "parse expression"
  | finishedReading .. => "parsed program"
  | accepted _ => "parsed"
  | started _ => "evaluating program"
  | evaluating _ => "eval"
  | failed _ => "program failed"

/-- The fields of an event besides its message, as text. -/
def fields : Event → List (String × String)
  | reading visit =>
      [("token", visit.kind.name), ("precedence", visit.precedence.name)]
  | finishedReading statements errors =>
      [("statements", statements.repr), ("errors", errors.repr)]
  | accepted statements => [("statements", statements.repr)]
  | started statements => [("statements", statements.repr)]
  | evaluating visit => [("kind", visit.kind.label), ("depth", visit.depth.repr)]
  | failed fault => [("message", fault.message)]

end Event

end LetLang
