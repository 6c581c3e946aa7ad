import LetLang.Proofs.Evaluation.Semantics

/-!
# Signals are exceptions

The evaluator hands signals on as values, at every place where it evaluates
something.  In a plain environment this amounts to exceptions that pass through
everything up to the program: the value and the environment of an evaluation are
those of the reference semantics, in which entering a level throws when the
limit is reached.
-/

namespace LetLang

/-- Computations that work on an environment and can be interrupted.  What was
bound before an interrupt stays bound. -/
abbrev Interruptible := ExceptT Interrupt (StateM Environment)

namespace Interruptible

variable {α β : Type} {env env' : Environment}

/-- How a computation ends, and the environment that it leaves. -/
def outcome (c : Interruptible α) (env : Environment) : Except Interrupt α × Environment :=
  (c.run.run env).run

theorem outcome_bind_of_ok
    {c : Interruptible α} {a : α} (h : c.outcome env = (.ok a, env'))
    (next : α → Interruptible β) :
    (c >>= next).outcome env = (next a).outcome env' := by
  simp only [outcome, ExceptT.run_bind, StateT.run_bind, Id.run_bind] at h ⊢
  rw [h]

theorem outcome_bind_of_error
    {c : Interruptible α} {i : Interrupt} (h : c.outcome env = (.error i, env'))
    (next : α → Interruptible β) :
    (c >>= next).outcome env = (.error i, env') := by
  simp only [outcome, ExceptT.run_bind, StateT.run_bind, Id.run_bind] at h ⊢
  rw [h]
  rfl

theorem outcome_program
    {enter : Nat → Interruptible Nat} {p : Program} {o : Outcome}
    (h : (Stmt.denoteAll enter p.statements 0).outcome env = (o, env')) :
    (p.denote enter).outcome env = (o.caught, env') := by
  rw [Program.denote]
  simp only [outcome, ExceptT.run_tryCatch, StateT.run_bind, Id.run_bind] at h ⊢
  rw [h]
  rcases o with (fault | v) | v
  all_goals rfl

/-- Goes one level deeper, and throws if the limit is reached. -/
def enterWithin (limit depth : Nat) : Interruptible Nat :=
  if depth < limit then pure (depth + 1) else throw (.err (.tooDeep limit))

end Interruptible

open Interruptible

/-- An evaluation ends with the value that stands for an outcome and in the same
environment, and no signal is yielded, returned or bound as a value. -/
structure Realizes (e : Evaluation) (ended : Outcome × Environment) : Prop where
  value : e.value = ended.1.encode
  env : e.env = ended.2
  outcome_isPlain : ended.1.isPlain = true
  env_isPlain : ended.2.isPlain = true

namespace Realizes

variable {start : Environment} {e : Evaluation} {c : Interruptible Value}

theorem enter
    {limit depth : Nat} {inside : Nat → Evaluation} {next : Nat → Interruptible Value}
    (hstart : start.isPlain = true)
    (h : Realizes (inside (depth + 1)) ((next (depth + 1)).outcome start)) :
    Realizes (Evaluation.enter limit depth start inside)
      ((enterWithin limit depth >>= next).outcome start) := by
  by_cases hdepth : depth < limit
  · rw [Evaluation.enter, enterWithin, if_pos hdepth, if_pos hdepth]
    exact h
  · rw [Evaluation.enter, enterWithin, if_neg hdepth, if_neg hdepth]
    exact ⟨rfl, rfl, rfl, hstart⟩

theorem andThen
    {after : Value → Environment → Evaluation} {next : Value → Interruptible Value}
    (h : Realizes e (c.outcome start))
    (hnext : ∀ v env, env.isPlain = true → v.isPlain = true →
      Realizes (after v env) ((next v).outcome env)) :
    Realizes (e.andThen after) ((c >>= next).outcome start) := by
  rcases hc : c.outcome start with ⟨i | v, reached⟩
  · rw [hc] at h
    have hsignal : e.value.isSignal = true := by
      rw [h.value]
      exact Outcome.isSignal_encode_error i
    rw [Evaluation.andThen_of_isSignal hsignal, outcome_bind_of_error hc]
    exact h
  · rw [hc] at h
    have hsignal : e.value.isSignal = false := by
      rw [h.value]
      exact Outcome.isSignal_encode_ok h.outcome_isPlain
    rw [Evaluation.andThen_of_not_isSignal hsignal, h.value, h.env, outcome_bind_of_ok hc]
    obtain ⟨hvalue, henv, hplain, hreached⟩ := hnext v reached h.env_isPlain h.outcome_isPlain
    exact ⟨hvalue, henv, hplain, hreached⟩

/-- What the statements of a program realize, the program realizes with a return
caught. -/
theorem program
    {limit : Nat} {p : Program}
    (h : Realizes (Stmt.evalAll limit p.statements 0 start .null)
      ((Stmt.denoteAll (enterWithin limit) p.statements 0).outcome start)) :
    Realizes (p.eval limit start) ((p.denote (enterWithin limit)).outcome start) ∧
      ∀ v, (p.eval limit start).value ≠ .ret v := by
  rcases hc : (Stmt.denoteAll (enterWithin limit) p.statements 0).outcome start with ⟨o, reached⟩
  rw [hc] at h
  have hvalue : (p.eval limit start).value = Outcome.encode (Outcome.caught o) := by
    rw [Program.eval, h.value]
    exact Outcome.unwrapReturn_encode h.outcome_isPlain
  rw [outcome_program hc, hvalue]
  constructor
  · exact ⟨hvalue, h.env, Outcome.isPlain_caught h.outcome_isPlain, h.env_isPlain⟩
  · exact Outcome.encode_caught_ne_ret h.outcome_isPlain

end Realizes

/-- The evaluator takes the steps of the semantics that throws at the limit. -/
theorem simulation_realizes (limit : Nat) :
    Simulation limit (enterWithin limit) fun start e c => Realizes e (c.outcome start) where
  done henv hv := ⟨rfl, rfl, hv, henv⟩
  fault henv _ := ⟨rfl, rfl, rfl, henv⟩
  ret henv hv := ⟨rfl, rfl, hv, henv⟩
  set x henv hv := ⟨rfl, rfl, hv, Environment.isPlain_set henv hv x⟩
  get h := h
  enter := Realizes.enter
  andThen := Realizes.andThen
  visiting _ _ h := ⟨h.value, h.env, h.outcome_isPlain, h.env_isPlain⟩

/-- The evaluator implements the semantics in which errors and returns are
exceptions, for all forms of syntax, all limits and all depths.  A program never
ends with a return. -/
theorem eval_realizes_denote
    (limit depth : Nat) (env : Environment) (henv : env.isPlain = true) :
    (∀ e : Expr, Realizes (e.eval limit depth env)
      ((e.denote (enterWithin limit) depth).outcome env)) ∧
    (∀ s : Stmt, Realizes (s.eval limit depth env)
      ((s.denote (enterWithin limit) depth).outcome env)) ∧
    (∀ b : List Stmt, Realizes (Stmt.evalAll limit b depth env .null)
      ((Stmt.denoteAll (enterWithin limit) b depth).outcome env)) ∧
    (∀ b : Block, Realizes (Block.eval limit b depth env)
      ((Block.denote (enterWithin limit) b depth).outcome env)) ∧
    (∀ p : Program, Realizes (p.eval limit env) ((p.denote (enterWithin limit)).outcome env) ∧
      ∀ v, (p.eval limit env).value ≠ .ret v) := by
  have S := simulation_realizes limit
  refine ⟨?_, ?_, ?_, ?_, ?_⟩
  · exact fun e => S.expr e depth env henv
  · exact fun s => S.stmt s depth env henv
  · exact fun b => S.sequence b depth env henv
  · exact fun b => S.block b depth henv
  · exact fun p => Realizes.program (S.sequence p.statements 0 env henv)

/-- A block that defines a name, returns what it bound and never comes to its
last statement. -/
theorem eval_realizes_denote_return :
    ∃ env : Environment, ∃ p : Program,
      env = (Environment.empty.set "x" (.bool true)).enclosed ∧
      p = ⟨[.block [.bind "y" (.unary .not (.name "x")),
        .expr (.ifThen (.name "x") [.ret (.name "y")]), .expr (.name "z")]]⟩ ∧
      env.isPlain = true ∧
      (p.denote (enterWithin 4)).outcome env = (.ok (.bool false), env.set "y" (.bool false)) ∧
      Realizes (p.eval 4 env) ((p.denote (enterWithin 4)).outcome env) := by
  refine ⟨_, _, rfl, rfl, by decide, rfl, ?_⟩
  exact ((eval_realizes_denote 4 0 _ (by decide)).2.2.2.2 _).1

end LetLang
