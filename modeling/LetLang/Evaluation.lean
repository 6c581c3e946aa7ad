import LetLang.Environment
import LetLang.Program.Basic
import LetLang.Value.Operation

/-!
# Evaluation

Programs are evaluated by walking their trees.  Every expression and every block
that is entered is one level deeper than what it stands in, and none is entered
past a given limit.  A signal, once it arises, is the value of everything around
it, up to the program, which takes the return off its value.
-/

namespace LetLang

/-- An expression that was entered, as the trace reports it. -/
structure Evaluation.Visit where
  /-- The form of the expression. -/
  kind : ExprKind
  /-- Its depth, where the outermost expressions have depth one. -/
  depth : Nat
deriving DecidableEq, Repr

/-- What an evaluation yields and leaves behind. -/
structure Evaluation where
  /-- The value, which may be a signal. -/
  value : Value
  /-- The bindings afterwards. -/
  env : Environment
  /-- The expressions that were entered, in order. -/
  visits : List Evaluation.Visit
deriving DecidableEq

namespace Evaluation

/-- The limit on depth where none is given. -/
def defaultLimit : Nat := 1000

/-- A value without any evaluation. -/
def done (value : Value) (env : Environment) : Evaluation :=
  ⟨value, env, []⟩

/-- Goes on with the value of an evaluation, unless it is a signal. -/
def andThen (e : Evaluation) (next : Value → Environment → Evaluation) : Evaluation :=
  if e.value.isSignal then
    e
  else
    let f := next e.value e.env
    ⟨f.value, f.env, e.visits ++ f.visits⟩

/-- A signal ends the evaluation. -/
theorem andThen_of_isSignal {e : Evaluation} {next : Value → Environment → Evaluation}
    (h : e.value.isSignal = true) : e.andThen next = e := by
  simp [andThen, h]

/-- Every other value is handed on, with the environment that was reached. -/
theorem andThen_of_not_isSignal {e : Evaluation} {next : Value → Environment → Evaluation}
    (h : e.value.isSignal = false) :
    e.andThen next =
      ⟨(next e.value e.env).value, (next e.value e.env).env,
        e.visits ++ (next e.value e.env).visits⟩ := by
  simp [andThen, h]

/-- Evaluates something one level deeper, if the limit allows another level. -/
def enter (limit depth : Nat) (env : Environment) (inside : Nat → Evaluation) : Evaluation :=
  if depth < limit then inside (depth + 1) else done (.err (.tooDeep limit)) env

/-- Puts the expression that is being evaluated in front of the trace. -/
def visiting (kind : ExprKind) (depth : Nat) (e : Evaluation) : Evaluation :=
  { e with visits := ⟨kind, depth⟩ :: e.visits }

end Evaluation

open Evaluation

mutual

/-- Evaluates an expression that stands at a given depth. -/
def Expr.eval (limit : Nat) : Expr → (depth : Nat) → Environment → Evaluation
  | .name x, depth, env =>
      enter limit depth env fun depth =>
        visiting .name depth <| done ((env.get? x).getD (.err (.unbound x))) env
  | .int n, depth, env =>
      enter limit depth env fun depth =>
        visiting .int depth <| done (.int n) env
  | .bool b, depth, env =>
      enter limit depth env fun depth =>
        visiting .bool depth <| done (.bool b) env
  | .unary op e, depth, env =>
      enter limit depth env fun depth =>
        visiting .unary depth <|
          (e.eval limit depth env).andThen fun v env => done (op.apply v) env
  | .binary op l r, depth, env =>
      enter limit depth env fun depth =>
        visiting .binary depth <|
          (l.eval limit depth env).andThen fun a env =>
            (r.eval limit depth env).andThen fun b env => done (op.apply a b) env
  | .ifThen c t, depth, env =>
      enter limit depth env fun depth =>
        visiting .conditional depth <|
          (c.eval limit depth env).andThen fun v env =>
            if v.isTruthy then
              enter limit depth env fun depth => Stmt.evalAll limit t depth env .null
            else
              done .null env
  | .ifElse c t e, depth, env =>
      enter limit depth env fun depth =>
        visiting .conditional depth <|
          (c.eval limit depth env).andThen fun v env =>
            if v.isTruthy then
              enter limit depth env fun depth => Stmt.evalAll limit t depth env .null
            else
              enter limit depth env fun depth => Stmt.evalAll limit e depth env .null

/-- Evaluates a statement that stands at a given depth.  A `let` defines its name
in the innermost scope and has the value that it binds. -/
def Stmt.eval (limit : Nat) : Stmt → (depth : Nat) → Environment → Evaluation
  | .bind x e, depth, env =>
      (e.eval limit depth env).andThen fun v env => done v (env.set x v)
  | .ret e, depth, env =>
      (e.eval limit depth env).andThen fun v env => done (.ret v) env
  | .expr e, depth, env => e.eval limit depth env
  | .block b, depth, env =>
      enter limit depth env fun depth => Stmt.evalAll limit b depth env .null

/-- Evaluates statements in order up to the first signal.  The value is that of
the last statement, or `last` if there is none. -/
def Stmt.evalAll (limit : Nat) :
    List Stmt → (depth : Nat) → Environment → (last : Value) → Evaluation
  | [], _, env, last => done last env
  | s :: rest, depth, env, _ =>
      (s.eval limit depth env).andThen fun v env => Stmt.evalAll limit rest depth env v

end

/-- Evaluates a block that stands at a given depth; an empty block is null. -/
def Block.eval (limit : Nat) (b : Block) (depth : Nat) (env : Environment) : Evaluation :=
  enter limit depth env fun depth => Stmt.evalAll limit b depth env .null

/-- Evaluates a program and takes the return, if there is one, off its value. -/
def Program.eval (limit : Nat) (p : Program) (env : Environment) : Evaluation :=
  let e := Stmt.evalAll limit p.statements 0 env .null
  { e with value := e.value.unwrapReturn }

end LetLang
