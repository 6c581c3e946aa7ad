import LetLang.Token.Basic

/-!
# Syntax errors

A syntax error is a cause together with the place of the offending token.
Reading a program does not stop at an error, so errors come as lists, in the
order in which they were found.
-/

namespace LetLang

/-- What is wrong with a source text. -/
inductive SyntaxError.Cause where
  /-- A token of one kind had to come and another one came. -/
  | unexpected (expected got : TokenKind)
  /-- No expression starts with a token of this kind. -/
  | noExpression (kind : TokenKind)
  /-- An integer literal that does not read as an integer. -/
  | badInteger (literal : String)
  /-- Expressions and blocks are nested past the limit. -/
  | nestedTooDeeply
  /-- A cause known by its wording alone. -/
  | stated (message : String)
deriving DecidableEq, Repr

/-- A syntax error: its cause and, where it is known, its place. -/
structure SyntaxError where
  /-- What is wrong. -/
  cause : SyntaxError.Cause
  /-- The place of the offending token. -/
  position : Option Position
deriving DecidableEq, Repr

namespace SyntaxError

/-- The wording of a cause. -/
def Cause.message : Cause → String
  | unexpected expected got =>
      "expected next token to be " ++ expected.name ++ ", got " ++ got.name ++ " instead"
  | noExpression kind => "no prefix parse function for " ++ kind.name ++ " found"
  | badInteger literal => "could not parse " ++ literal ++ " as integer"
  | nestedTooDeeply => "expression nested too deeply"
  | stated message => message

/-- The wording of an error, without its place. -/
def message (e : SyntaxError) : String :=
  e.cause.message

/-- The wording of an error, followed by its place where that is known. -/
def render (e : SyntaxError) : String :=
  match e.position with
  | none => e.message
  | some p => e.message ++ " (at " ++ p.render ++ ")"

/-- The text of a list of errors, one on each line. -/
def renderAll (errors : List SyntaxError) : String :=
  "\n".intercalate (errors.map render)

/-- The errors up to and including the first about nesting.  Past the limit the
rest of the input is dropped, and what is found wrong there is not reported. -/
def reported : List SyntaxError → List SyntaxError
  | [] => []
  | e :: errors => if e.cause = .nestedTooDeeply then [e] else e :: reported errors

/-- Nothing is reported exactly when nothing was found. -/
theorem reported_eq_nil_iff {errors : List SyntaxError} :
    reported errors = [] ↔ errors = [] := by
  cases errors with
  | nil => simp [reported]
  | cons e errors =>
    simp only [reported]
    split <;> simp

end SyntaxError

end LetLang
