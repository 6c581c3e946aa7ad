import LetLang.Event
import LetLang.Program.Parser

/-!
# Runs of source texts

Running a source text reads it and, if it has no syntax errors, evaluates it.
A text with syntax errors is not evaluated at all, so it leaves the environment
as it was.
-/

namespace LetLang

/-- Why a run has no value. -/
inductive Failure where
  /-- The text has syntax errors. -/
  | parse (errors : List SyntaxError)
  /-- The evaluation stopped with a fault. -/
  | runtime (fault : Fault)
deriving DecidableEq

namespace Failure

/-- The wording of a failure; syntax errors come one on each line. -/
def message : Failure → String
  | parse errors => SyntaxError.renderAll errors
  | runtime fault => fault.message

/-- The text that shows a failure. -/
def render : Failure → String
  | parse errors => "\n".intercalate (errors.map fun e => "syntax error: " ++ e.render)
  | runtime fault => (Value.err fault).render

end Failure

/-- What a run yields and leaves behind. -/
structure Run where
  /-- The value of the program or the reason why there is none. -/
  result : Except Failure Value
  /-- The bindings afterwards. -/
  env : Environment
  /-- What happened, in order. -/
  events : List Event

namespace Run

/-- The result of a program that ended with a value; an error is no result. -/
def resultOf : Value → Except Failure Value
  | .err fault => .error (.runtime fault)
  | value => .ok value

/-- The events of reading a text. -/
def readingEvents (reading : Reading Program) : List Event :=
  reading.visits.map .reading ++
    [.finishedReading ((reading.value.map (·.statements.length)).getD 0)
      (SyntaxError.reported reading.errors).length]

/-- The events of evaluating a program of the given length. -/
def evaluationEvents (statements : Nat) (evaluation : Evaluation) : List Event :=
  [.accepted statements, .started statements] ++
    evaluation.visits.map .evaluating ++
      (evaluation.value.fault?.map .failed).toList

/-- Runs a source text in an environment, with a limit on the depth of
evaluation. -/
def ofSource (limit : Nat) (source : String) (env : Environment) : Run :=
  let reading := Program.read (.ofSource source)
  match Program.ofReading reading with
  | .error errors => ⟨.error (.parse errors), env, readingEvents reading⟩
  | .ok program =>
      let evaluation := program.eval limit env
      ⟨resultOf evaluation.value, evaluation.env,
        readingEvents reading ++ evaluationEvents program.statements.length evaluation⟩

/-- A text with syntax errors is not evaluated. -/
theorem ofSource_of_parse_eq_error
    {source : String} {errors : List SyntaxError} (h : Program.parse source = .error errors)
    (limit : Nat) (env : Environment) :
    (ofSource limit source env).result = .error (.parse errors) ∧
      (ofSource limit source env).env = env := by
  have hreading : Program.ofReading (Program.read (.ofSource source)) = .error errors := h
  simp [ofSource, hreading]

/-- A text without syntax errors is evaluated as the program that it is. -/
theorem ofSource_of_parse_eq_ok
    {source : String} {program : Program} (h : Program.parse source = .ok program)
    (limit : Nat) (env : Environment) :
    (ofSource limit source env).result = resultOf (program.eval limit env).value ∧
      (ofSource limit source env).env = (program.eval limit env).env := by
  have hreading : Program.ofReading (Program.read (.ofSource source)) = .ok program := h
  simp [ofSource, hreading]

/-- The text that shows the result of a run. -/
def render (run : Run) : String :=
  match run.result with
  | .ok value => value.render
  | .error failure => failure.render

end Run

end LetLang
