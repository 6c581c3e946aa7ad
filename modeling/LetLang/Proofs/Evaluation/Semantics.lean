import LetLang.Evaluation
import LetLang.Proofs.Evaluation.Plain

/-!
# What programs mean

A reference semantics in which signals are exceptions.  It is written over any
monad that keeps an environment and can be interrupted, and it leaves open what
happens when an expression or a block is entered: an interpretation can refuse
to enter it, or note that it was entered.

The evaluator is compared with all interpretations by one induction over the
syntax.  What a comparison has to provide is listed in `Simulation`.
-/

namespace LetLang

/-- What ends a program before its last statement. -/
inductive Interrupt where
  /-- A fault stops the program. -/
  | err (fault : Fault)
  /-- A `return` statement ends it with a value. -/
  | ret (value : Value)
deriving DecidableEq

/-- How a program, or a part of it, ends. -/
abbrev Outcome := Except Interrupt Value

namespace Outcome

/-- The value that stands for an outcome where interrupts are signals. -/
def encode : Outcome → Value
  | .ok v => v
  | .error (.err fault) => .err fault
  | .error (.ret v) => .ret v

/-- Whether the value that is yielded or returned, if any, is plain. -/
def isPlain : Outcome → Bool
  | .ok v | .error (.ret v) => v.isPlain
  | .error (.err _) => true

theorem isSignal_encode_error (i : Interrupt) : (encode (.error i)).isSignal = true := by
  cases i <;> rfl

theorem isSignal_encode_ok {v : Value} (hv : v.isPlain = true) :
    (encode (.ok v)).isSignal = false := by
  rw [encode, v.isSignal_eq_not_isPlain, hv]
  rfl

/-- The outcome of a program whose statements have the given one: a return is
caught. -/
def caught : Outcome → Outcome
  | .error (.ret v) => .ok v
  | o => o

theorem isPlain_caught {o : Outcome} (ho : o.isPlain = true) : o.caught.isPlain = true := by
  unfold caught
  split
  · exact ho
  · exact ho

theorem unwrapReturn_encode {o : Outcome} (ho : o.isPlain = true) :
    o.encode.unwrapReturn = o.caught.encode := by
  rcases o with (fault | v) | v
  · rfl
  · rfl
  · cases v with
    | ret v => cases ho
    | _ => rfl

theorem encode_caught_ne_ret {o : Outcome} (ho : o.isPlain = true) (v : Value) :
    o.caught.encode ≠ .ret v := by
  have hplain {w : Value} (hw : w.isPlain = true) : w ≠ .ret v := by
    rintro rfl
    cases hw
  rcases o with (fault | w) | w
  · exact Value.noConfusion
  · exact hplain ho
  · exact hplain ho

end Outcome

/-! ## The semantics -/

section Semantics

variable {m : Type → Type} [Monad m] [MonadState Environment m] [MonadExcept Interrupt m]

/-- The answer of an operator, where a fault is thrown. -/
def Value.orThrow : Value → m Value
  | .err fault => throw (.err fault)
  | v => pure v

mutual

/-- The meaning of an expression.  Entering it gives the depth of what stands in
it. -/
def Expr.denote (enter : Nat → m Nat) : Expr → (depth : Nat) → m Value
  | .name x, depth => do
      let _ ← enter depth
      let env ← get
      match env.get? x with
      | some v => pure v
      | none => throw (.err (.unbound x))
  | .int n, depth => do
      let _ ← enter depth
      pure (.int n)
  | .bool b, depth => do
      let _ ← enter depth
      pure (.bool b)
  | .unary op e, depth => do
      let depth ← enter depth
      let v ← e.denote enter depth
      (op.apply v).orThrow
  | .binary op l r, depth => do
      let depth ← enter depth
      let a ← l.denote enter depth
      let b ← r.denote enter depth
      (op.apply a b).orThrow
  | .ifThen c t, depth => do
      let depth ← enter depth
      let v ← c.denote enter depth
      if v.isTruthy then
        let depth ← enter depth
        Stmt.denoteAll enter t depth
      else
        pure .null
  | .ifElse c t e, depth => do
      let depth ← enter depth
      let v ← c.denote enter depth
      if v.isTruthy then
        let depth ← enter depth
        Stmt.denoteAll enter t depth
      else
        let depth ← enter depth
        Stmt.denoteAll enter e depth

/-- The meaning of a statement. -/
def Stmt.denote (enter : Nat → m Nat) : Stmt → (depth : Nat) → m Value
  | .bind x e, depth => do
      let v ← e.denote enter depth
      modify fun env => env.set x v
      pure v
  | .ret e, depth => do
      let v ← e.denote enter depth
      throw (.ret v)
  | .expr e, depth => e.denote enter depth
  | .block b, depth => do
      let depth ← enter depth
      Stmt.denoteAll enter b depth

/-- The meaning of statements in a row: the value of the last one, or null. -/
def Stmt.denoteAll (enter : Nat → m Nat) : List Stmt → (depth : Nat) → m Value
  | [], _ => pure .null
  | [s], depth => s.denote enter depth
  | s :: next :: rest, depth => do
      let _ ← s.denote enter depth
      Stmt.denoteAll enter (next :: rest) depth

end

/-- The meaning of a block. -/
def Block.denote (enter : Nat → m Nat) (b : Block) (depth : Nat) : m Value := do
  let depth ← enter depth
  Stmt.denoteAll enter b depth

/-- The meaning of a program, which catches a return. -/
def Program.denote (enter : Nat → m Nat) (p : Program) : m Value :=
  tryCatch (Stmt.denoteAll enter p.statements 0) fun interrupt =>
    match interrupt with
    | .ret v => pure v
    | .err fault => throw (.err fault)

end Semantics

/-! ## Comparing the evaluator with an interpretation -/

namespace Evaluation

theorem andThen_done (e : Evaluation) : e.andThen done = e := by
  by_cases h : e.value.isSignal = true
  · exact andThen_of_isSignal h
  · simp [andThen, h, done]

end Evaluation

section Comparison

open Evaluation

variable {m : Type → Type} [Monad m] [MonadState Environment m] [MonadExcept Interrupt m]

/-- The relation `R` between evaluations with a limit and computations from a
plain environment is kept by each step that the evaluator takes.  What comes
after a step is only compared for plain values in plain environments. -/
structure Simulation
    (limit : Nat) (enter : Nat → m Nat) (R : Environment → Evaluation → m Value → Prop) :
    Prop where
  done {env : Environment} {v : Value} :
    env.isPlain = true → v.isPlain = true → R env (Evaluation.done v env) (pure v)
  fault {env : Environment} {fault : Fault} :
    env.isPlain = true → fault.isOrdinary = true →
      R env (Evaluation.done (.err fault) env) (throw (.err fault))
  ret {env : Environment} {v : Value} :
    env.isPlain = true → v.isPlain = true →
      R env (Evaluation.done (.ret v) env) (throw (.ret v))
  set {env : Environment} {v : Value} (x : String) :
    env.isPlain = true → v.isPlain = true →
      R env (Evaluation.done v (env.set x v)) (do modify fun env => env.set x v; pure v)
  get {env : Environment} {e : Evaluation} {next : Environment → m Value} :
    R env e (next env) → R env e (get >>= next)
  enter {env : Environment} {depth : Nat} {inside : Nat → Evaluation} {next : Nat → m Value} :
    env.isPlain = true → R env (inside (depth + 1)) (next (depth + 1)) →
      R env (Evaluation.enter limit depth env inside) (enter depth >>= next)
  andThen {env : Environment} {e : Evaluation} {c : m Value}
      {after : Value → Environment → Evaluation} {next : Value → m Value} :
    R env e c →
      (∀ v env', env'.isPlain = true → v.isPlain = true → R env' (after v env') (next v)) →
      R env (e.andThen after) (c >>= next)
  visiting {env : Environment} {e : Evaluation} {c : m Value} (kind : ExprKind) (depth : Nat) :
    R env e c → R env (visiting kind depth e) c

namespace Simulation

variable {limit : Nat} {enter : Nat → m Nat} {R : Environment → Evaluation → m Value → Prop}

theorem answer
    (S : Simulation limit enter R) {env : Environment} {v : Value}
    (henv : env.isPlain = true) (hv : v.isAnswer = true) :
    R env (Evaluation.done v env) v.orThrow := by
  cases v with
  | int n => exact S.done henv rfl
  | bool b => exact S.done henv rfl
  | null => exact S.done henv rfl
  | ret v => cases hv
  | err fault => exact S.fault henv hv

theorem lookup
    (S : Simulation limit enter R) {env : Environment} (henv : env.isPlain = true)
    (x : String) :
    R env (Evaluation.done ((env.get? x).getD (.err (.unbound x))) env)
      (match env.get? x with
        | some v => pure v
        | none => throw (.err (.unbound x))) := by
  cases hv : env.get? x with
  | none => exact S.fault henv rfl
  | some v => exact S.done henv (Environment.isPlain_of_get? henv hv)

mutual

theorem expr
    (S : Simulation limit enter R) :
    (e : Expr) → (depth : Nat) → (env : Environment) → env.isPlain = true →
      R env (e.eval limit depth env) (e.denote enter depth)
  | .name x, depth, env, henv => by
      rw [Expr.eval, Expr.denote]
      exact S.enter henv (S.visiting _ _ (S.get (S.lookup henv x)))
  | .int n, depth, env, henv => by
      rw [Expr.eval, Expr.denote]
      exact S.enter henv (S.visiting _ _ (S.done henv rfl))
  | .bool b, depth, env, henv => by
      rw [Expr.eval, Expr.denote]
      exact S.enter henv (S.visiting _ _ (S.done henv rfl))
  | .unary op e, depth, env, henv => by
      rw [Expr.eval, Expr.denote]
      refine S.enter henv (S.visiting _ _ (S.andThen (S.expr e _ env henv) ?_))
      intro v env henv _
      exact S.answer henv (op.isAnswer_apply v)
  | .binary op l r, depth, env, henv => by
      rw [Expr.eval, Expr.denote]
      refine S.enter henv (S.visiting _ _ (S.andThen (S.expr l _ env henv) ?_))
      intro a env henv _
      refine S.andThen (S.expr r _ env henv) ?_
      intro b env henv _
      exact S.answer henv (op.isAnswer_apply a b)
  | .ifThen c t, depth, env, henv => by
      rw [Expr.eval, Expr.denote]
      refine S.enter henv (S.visiting _ _ (S.andThen (S.expr c _ env henv) ?_))
      intro v env henv _
      by_cases hv : v.isTruthy = true
      · simp only [hv, if_true]
        exact S.enter henv (S.sequence t _ env henv)
      · simp only [hv, Bool.false_eq_true, if_false]
        exact S.done henv rfl
  | .ifElse c t e, depth, env, henv => by
      rw [Expr.eval, Expr.denote]
      refine S.enter henv (S.visiting _ _ (S.andThen (S.expr c _ env henv) ?_))
      intro v env henv _
      by_cases hv : v.isTruthy = true
      · simp only [hv, if_true]
        exact S.enter henv (S.sequence t _ env henv)
      · simp only [hv, Bool.false_eq_true, if_false]
        exact S.enter henv (S.sequence e _ env henv)

theorem stmt
    (S : Simulation limit enter R) :
    (s : Stmt) → (depth : Nat) → (env : Environment) → env.isPlain = true →
      R env (s.eval limit depth env) (s.denote enter depth)
  | .bind x e, depth, env, henv => by
      rw [Stmt.eval, Stmt.denote]
      refine S.andThen (S.expr e depth env henv) ?_
      intro v env henv hv
      exact S.set x henv hv
  | .ret e, depth, env, henv => by
      rw [Stmt.eval, Stmt.denote]
      refine S.andThen (S.expr e depth env henv) ?_
      intro v env henv hv
      exact S.ret henv hv
  | .expr e, depth, env, henv => by
      rw [Stmt.eval, Stmt.denote]
      exact S.expr e depth env henv
  | .block b, depth, env, henv => by
      rw [Stmt.eval, Stmt.denote]
      exact S.enter henv (S.sequence b _ env henv)

theorem sequence
    (S : Simulation limit enter R) :
    (b : List Stmt) → (depth : Nat) → (env : Environment) → env.isPlain = true →
      R env (Stmt.evalAll limit b depth env .null) (Stmt.denoteAll enter b depth)
  | [], depth, env, henv => by
      rw [Stmt.evalAll, Stmt.denoteAll]
      exact S.done henv rfl
  | [s], depth, env, henv => by
      have hlast : Stmt.evalAll limit [s] depth env .null = s.eval limit depth env :=
        andThen_done (s.eval limit depth env)
      rw [hlast, Stmt.denoteAll]
      exact S.stmt s depth env henv
  | s :: next :: rest, depth, env, henv => by
      rw [Stmt.evalAll, Stmt.denoteAll]
      refine S.andThen (S.stmt s depth env henv) ?_
      -- The value handed on is replaced by that of the next statement.
      intro v env henv _
      exact S.sequence (next :: rest) depth env henv

end

theorem block
    (S : Simulation limit enter R) (b : Block) (depth : Nat) {env : Environment}
    (henv : env.isPlain = true) :
    R env (Block.eval limit b depth env) (Block.denote enter b depth) :=
  S.enter henv (S.sequence b _ env henv)

end Simulation

end Comparison

end LetLang
