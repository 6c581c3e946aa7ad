import LetLang.Evaluation

/-!
# The counter of open levels

The evaluator hands the depth down as an argument.  Here it is kept in a single
counter instead: opening a level adds one to it, and leaving the level takes one
off, whatever the value inside was.  The counter always shows the depth that is
handed down otherwise, so both evaluations do the same, and after each of them
the counter is where it was before.
-/

namespace LetLang

/-- What an evaluation with a counter can change. -/
structure Counting.State where
  /-- The bindings. -/
  env : Environment
  /-- How many levels are open. -/
  opened : Nat
  /-- The expressions that were entered, in order. -/
  visits : List Evaluation.Visit
deriving DecidableEq

/-- Evaluations with a counter. -/
abbrev Counting := StateM Counting.State

namespace Counting

/-- Goes on with a value, unless it is a signal. -/
def andThen (c : Counting Value) (next : Value → Counting Value) : Counting Value := do
  let v ← c
  if v.isSignal then pure v else next v

/-- Opens a level, if the limit allows another one, and closes it behind what is
inside. -/
def level (limit : Nat) (inside : Counting Value) : Counting Value := do
  if (← get).opened < limit then
    modify fun s => { s with opened := s.opened + 1 }
    let v ← inside
    modify fun s => { s with opened := s.opened - 1 }
    pure v
  else
    pure (.err (.tooDeep limit))

/-- Reports an expression at the depth that the counter shows. -/
def visit (kind : ExprKind) : Counting PUnit :=
  modify fun s => { s with visits := s.visits ++ [⟨kind, s.opened⟩] }

end Counting

mutual

/-- Evaluates an expression with a counter. -/
def Expr.evalCounting (limit : Nat) : Expr → Counting Value
  | .name x => Counting.level limit do
      Counting.visit .name
      pure (((← get).env.get? x).getD (.err (.unbound x)))
  | .int n => Counting.level limit do
      Counting.visit .int
      pure (.int n)
  | .bool b => Counting.level limit do
      Counting.visit .bool
      pure (.bool b)
  | .unary op e => Counting.level limit do
      Counting.visit .unary
      (e.evalCounting limit).andThen fun v => pure (op.apply v)
  | .binary op l r => Counting.level limit do
      Counting.visit .binary
      (l.evalCounting limit).andThen fun a =>
        (r.evalCounting limit).andThen fun b => pure (op.apply a b)
  | .ifThen c t => Counting.level limit do
      Counting.visit .conditional
      (c.evalCounting limit).andThen fun v =>
        if v.isTruthy then
          Counting.level limit (Stmt.evalAllCounting limit t .null)
        else
          pure .null
  | .ifElse c t e => Counting.level limit do
      Counting.visit .conditional
      (c.evalCounting limit).andThen fun v =>
        if v.isTruthy then
          Counting.level limit (Stmt.evalAllCounting limit t .null)
        else
          Counting.level limit (Stmt.evalAllCounting limit e .null)

/-- Evaluates a statement with a counter. -/
def Stmt.evalCounting (limit : Nat) : Stmt → Counting Value
  | .bind x e => (e.evalCounting limit).andThen fun v => do
      modify fun s => { s with env := s.env.set x v }
      pure v
  | .ret e => (e.evalCounting limit).andThen fun v => pure (.ret v)
  | .expr e => e.evalCounting limit
  | .block b => Counting.level limit (Stmt.evalAllCounting limit b .null)

/-- Evaluates statements in order with a counter. -/
def Stmt.evalAllCounting (limit : Nat) : List Stmt → (last : Value) → Counting Value
  | [], last => pure last
  | s :: rest, _ => (s.evalCounting limit).andThen fun v => Stmt.evalAllCounting limit rest v

end

/-- Evaluates a program with a counter. -/
def Program.evalCounting (limit : Nat) (p : Program) : Counting Value := do
  let v ← Stmt.evalAllCounting limit p.statements .null
  pure v.unwrapReturn

/-- With the counter at `depth`, the computation yields and leaves behind what the
evaluation does, and the counter is at `depth` again. -/
def Counting.Performs
    (c : Counting Value) (depth : Nat) (env : Environment) (e : Evaluation) : Prop :=
  ∀ visits, (c.run ⟨env, depth, visits⟩).run = (e.value, ⟨e.env, depth, visits ++ e.visits⟩)

namespace Counting.Performs

open Evaluation

variable {limit depth : Nat} {env : Environment} {c : Counting Value} {e : Evaluation}

theorem done (v : Value) : Performs (pure v) depth env (done v env) := by
  intro visits
  simp [Evaluation.done]

theorem andThen
    {next : Value → Counting Value} {next' : Value → Environment → Evaluation}
    (hc : Performs c depth env e)
    (hnext : Performs (next e.value) depth e.env (next' e.value e.env)) :
    Performs (c.andThen next) depth env (e.andThen next') := by
  intro visits
  simp only [Counting.andThen, StateT.run_bind, Id.run_bind, hc visits]
  by_cases hsignal : e.value.isSignal = true
  · simp [andThen_of_isSignal hsignal, hsignal]
  · rw [Bool.not_eq_true] at hsignal
    simp [andThen_of_not_isSignal hsignal, hsignal, hnext (visits ++ e.visits)]

/-- A level is closed again behind whatever was inside. -/
theorem level
    {inside : Nat → Evaluation} (hc : Performs c (depth + 1) env (inside (depth + 1))) :
    Performs (Counting.level limit c) depth env (enter limit depth env inside) := by
  intro visits
  by_cases hlimit : depth < limit
  · simp [Counting.level, enter, hlimit, hc visits]
  · simp [Counting.level, enter, hlimit, Evaluation.done]

theorem visiting (kind : ExprKind) (hc : Performs c depth env e) :
    Performs (do Counting.visit kind; c) depth env (visiting kind depth e) := by
  intro visits
  simp [Counting.visit, Evaluation.visiting, hc (visits ++ [⟨kind, depth⟩])]

theorem lookup (x : String) :
    Performs (do pure (((← get).env.get? x).getD (.err (.unbound x)))) depth env
      (.done ((env.get? x).getD (.err (.unbound x))) env) := by
  intro visits
  simp [Evaluation.done]

theorem define (x : String) (v : Value) :
    Performs (do modify fun s => { s with env := s.env.set x v }; pure v) depth env
      (.done v (env.set x v)) := by
  intro visits
  simp [Evaluation.done]

end Counting.Performs

open Counting

mutual

theorem Expr.performs_evalCounting (limit : Nat) (e : Expr) (depth : Nat) (env : Environment) :
    (e.evalCounting limit).Performs depth env (e.eval limit depth env) := by
  match e with
  | .name x =>
      rw [Expr.evalCounting, Expr.eval]
      exact .level (.visiting _ (.lookup x))
  | .int n =>
      rw [Expr.evalCounting, Expr.eval]
      exact .level (.visiting _ (.done _))
  | .bool b =>
      rw [Expr.evalCounting, Expr.eval]
      exact .level (.visiting _ (.done _))
  | .unary op e =>
      rw [Expr.evalCounting, Expr.eval]
      exact .level (.visiting _ (.andThen (e.performs_evalCounting limit _ _) (.done _)))
  | .binary op l r =>
      rw [Expr.evalCounting, Expr.eval]
      refine .level (.visiting _ (.andThen (l.performs_evalCounting limit _ _) ?_))
      exact .andThen (r.performs_evalCounting limit _ _) (.done _)
  | .ifThen c t =>
      rw [Expr.evalCounting, Expr.eval]
      refine .level (.visiting _ (.andThen (c.performs_evalCounting limit _ _) ?_))
      split
      · exact .level (Stmt.performs_evalAllCounting limit t _ _ _)
      · exact .done _
  | .ifElse c t e =>
      rw [Expr.evalCounting, Expr.eval]
      refine .level (.visiting _ (.andThen (c.performs_evalCounting limit _ _) ?_))
      split
      · exact .level (Stmt.performs_evalAllCounting limit t _ _ _)
      · exact .level (Stmt.performs_evalAllCounting limit e _ _ _)

theorem Stmt.performs_evalCounting (limit : Nat) (s : Stmt) (depth : Nat) (env : Environment) :
    (s.evalCounting limit).Performs depth env (s.eval limit depth env) := by
  match s with
  | .bind x e =>
      rw [Stmt.evalCounting, Stmt.eval]
      exact .andThen (e.performs_evalCounting limit _ _) (.define x _)
  | .ret e =>
      rw [Stmt.evalCounting, Stmt.eval]
      exact .andThen (e.performs_evalCounting limit _ _) (.done _)
  | .expr e =>
      rw [Stmt.evalCounting, Stmt.eval]
      exact e.performs_evalCounting limit _ _
  | .block b =>
      rw [Stmt.evalCounting, Stmt.eval]
      exact .level (Stmt.performs_evalAllCounting limit b _ _ _)

theorem Stmt.performs_evalAllCounting
    (limit : Nat) (b : List Stmt) (depth : Nat) (env : Environment) (last : Value) :
    (Stmt.evalAllCounting limit b last).Performs depth env
      (Stmt.evalAll limit b depth env last) := by
  match b with
  | [] =>
      rw [Stmt.evalAllCounting, Stmt.evalAll]
      exact .done _
  | s :: rest =>
      rw [Stmt.evalAllCounting, Stmt.evalAll]
      exact .andThen (s.performs_evalCounting limit _ _)
        (Stmt.performs_evalAllCounting limit rest _ _ _)

end

/-- With no level open, a program does what it does without a counter, and no level
is open afterwards. -/
theorem Program.run_evalCounting
    (limit : Nat) (p : Program) (env : Environment) (visits : List Evaluation.Visit) :
    ((p.evalCounting limit).run ⟨env, 0, visits⟩).run =
      ((p.eval limit env).value,
        ⟨(p.eval limit env).env, 0, visits ++ (p.eval limit env).visits⟩) := by
  have hbody := Stmt.performs_evalAllCounting limit p.statements 0 env .null visits
  simp [Program.evalCounting, Program.eval, hbody]

end LetLang
