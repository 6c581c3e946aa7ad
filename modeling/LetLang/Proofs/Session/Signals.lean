import LetLang.Proofs.Evaluation.Exceptions
import LetLang.Session

/-!
# Signals stay inside a run

Errors and returns travel through an evaluation as values, next to integers,
booleans and null.  They are gone when the run is over: nothing that a run binds
or yields is a signal, as long as it starts in a plain environment.  Since the
environment is plain again afterwards, this goes on over any sequence of runs
and session lines.
-/

namespace LetLang

/-! ## A single evaluation -/

theorem Realizes.isPlain_of_value_eq_ret
    {e : Evaluation} {ended : Outcome × Environment} (h : Realizes e ended)
    {v : Value} (hv : e.value = .ret v) : v.isPlain = true := by
  have hencode : ended.1.encode = .ret v := h.value.symm.trans hv
  have hplain := h.outcome_isPlain
  rcases ended with ⟨(fault | w) | w, env⟩
  · exact absurd hencode Value.noConfusion
  · obtain rfl : w = v := Value.ret.inj hencode
    exact hplain
  · -- A value that is yielded is plain, so it does not stand for a return.
    obtain rfl : w = .ret v := hencode
    exact absurd hplain Bool.noConfusion

/-- The evaluation of a program in a plain environment leaves a plain
environment and does not end with a return. -/
theorem Program.isPlain_env_eval_and_value_ne_ret
    (limit : Nat) (p : Program) {env : Environment} (henv : env.isPlain = true) :
    (p.eval limit env).env.isPlain = true ∧ ∀ v, (p.eval limit env).value ≠ .ret v := by
  have hbody := (simulation_realizes limit).sequence p.statements 0 env henv
  obtain ⟨hrealizes, hvalue⟩ := Realizes.program hbody
  refine ⟨?_, hvalue⟩
  rw [hrealizes.env]
  exact hrealizes.env_isPlain

/-! ## A single run -/

namespace Run

theorem isPlain_of_resultOf_eq_ok
    {value v : Value} (hvalue : ∀ w, value ≠ .ret w) (h : resultOf value = .ok v) :
    v.isPlain = true := by
  cases value with
  | ret w => exact absurd rfl (hvalue w)
  | err fault => cases h
  | _ =>
      cases h
      rfl

theorem isPlain_env_ofSource
    (limit : Nat) (source : String) {env : Environment} (henv : env.isPlain = true) :
    (ofSource limit source env).env.isPlain = true := by
  cases hparse : Program.parse source with
  | error errors =>
      rw [(ofSource_of_parse_eq_error hparse limit env).2]
      exact henv
  | ok program =>
      rw [(ofSource_of_parse_eq_ok hparse limit env).2]
      exact (program.isPlain_env_eval_and_value_ne_ret limit henv).1

theorem isPlain_of_result_ofSource_eq_ok
    {limit : Nat} {source : String} {env : Environment} (henv : env.isPlain = true)
    {v : Value} (h : (ofSource limit source env).result = .ok v) : v.isPlain = true := by
  cases hparse : Program.parse source with
  | error errors =>
      rw [(ofSource_of_parse_eq_error hparse limit env).1] at h
      cases h
  | ok program =>
      rw [(ofSource_of_parse_eq_ok hparse limit env).1] at h
      exact isPlain_of_resultOf_eq_ok (program.isPlain_env_eval_and_value_ne_ret limit henv).2 h

end Run

/-! ## Sequences of runs and session lines -/

/-- A source text that is evaluated in an environment. -/
inductive Call where
  /-- The text is run with a limit on the depth. -/
  | run (limit : Nat) (source : String)
  /-- The text is a line of a session with a limit on the depth. -/
  | line (limit : Nat) (source : String)

namespace Call

/-- The environment after a call. -/
def after (env : Environment) : Call → Environment
  | run limit source => (Run.ofSource limit source env).env
  | line limit source => (Session.eval ⟨limit, env⟩ source).2.env

/-- The environment after some calls in a row. -/
def afterAll (env : Environment) (calls : List Call) : Environment :=
  calls.foldl after env

/-- The answer to a call is a plain value or a failure.  A session shows the text
of its answer. -/
def AnswersPlainly (env : Environment) : Call → Prop
  | run limit source => ∀ v, (Run.ofSource limit source env).result = .ok v → v.isPlain = true
  | line limit source =>
      (∃ v : Value, v.isPlain = true ∧ (Session.eval ⟨limit, env⟩ source).1 = v.render) ∨
      ∃ failure : Failure, (Session.eval ⟨limit, env⟩ source).1 = failure.render

theorem isPlain_after
    {env : Environment} (henv : env.isPlain = true) (call : Call) :
    (after env call).isPlain = true := by
  cases call with
  | run limit source => exact Run.isPlain_env_ofSource limit source henv
  | line limit source => exact Run.isPlain_env_ofSource limit source henv

theorem isPlain_afterAll
    {env : Environment} (henv : env.isPlain = true) (calls : List Call) :
    (afterAll env calls).isPlain = true := by
  induction calls generalizing env with
  | nil => exact henv
  | cons call calls ih => exact ih (isPlain_after henv call)

theorem answersPlainly
    {env : Environment} (henv : env.isPlain = true) (call : Call) :
    call.AnswersPlainly env := by
  cases call with
  | run limit source =>
      intro v hv
      exact Run.isPlain_of_result_ofSource_eq_ok henv hv
  | line limit source =>
      have hshown : (Session.eval ⟨limit, env⟩ source).1 =
          (Run.ofSource limit source env).render := rfl
      rw [AnswersPlainly, hshown, Run.render]
      cases hresult : (Run.ofSource limit source env).result with
      | error failure => exact Or.inr ⟨failure, rfl⟩
      | ok v => exact Or.inl ⟨v, Run.isPlain_of_result_ofSource_eq_ok henv hresult, rfl⟩

end Call

/-- From a plain environment on, every sequence of runs and session lines keeps
all bindings plain and answers with plain values and failures, and the value of
an expression, a statement or a block is never a return of a signal. -/
theorem calls_keep_signals_inside
    (env : Environment) (henv : env.isPlain = true) :
    (∀ calls : List Call, (Call.afterAll env calls).isPlain = true ∧
      ∀ call : Call, call.AnswersPlainly (Call.afterAll env calls)) ∧
    (∀ (limit depth : Nat) (v : Value),
      (∀ e : Expr, (e.eval limit depth env).value = .ret v → v.isPlain = true) ∧
      (∀ s : Stmt, (s.eval limit depth env).value = .ret v → v.isPlain = true) ∧
      (∀ b : Block, (Block.eval limit b depth env).value = .ret v → v.isPlain = true)) := by
  constructor
  · intro calls
    have hplain := Call.isPlain_afterAll henv calls
    exact ⟨hplain, Call.answersPlainly hplain⟩
  · intro limit depth v
    have S := simulation_realizes limit
    refine ⟨?_, ?_, ?_⟩
    · intro e hv
      exact (S.expr e depth env henv).isPlain_of_value_eq_ret hv
    · intro s hv
      exact (S.stmt s depth env henv).isPlain_of_value_eq_ret hv
    · intro b hv
      exact (S.block b depth henv).isPlain_of_value_eq_ret hv

/-- A return in the condition of a definition ends the first call, the second one
overflows the depth, and a block returns from inside a return. -/
theorem calls_keep_signals_inside_returns :
    ∃ (env : Environment) (source : String) (calls : List Call),
      env = (Environment.empty.set "x" (.bool true)).enclosed ∧
      source = "let y = 4; let z = if (if (x) \x7b return y; \x7d) \x7b 1 \x7d;" ∧
      calls = [.run 9 source, .line 2 "let x = 1 + (2 + 3)"] ∧
      env.isPlain = true ∧
      (Run.ofSource 9 source env).result = .ok (.int ⟨4, by decide⟩) ∧
      Call.afterAll env calls = env.set "y" (.int ⟨4, by decide⟩) ∧
      (Call.afterAll env calls).isPlain = true ∧
      (∀ call : Call, call.AnswersPlainly (Call.afterAll env calls)) ∧
      (∀ v, (Block.eval 9 [.ret (.ifThen (.name "x") [.ret (.name "x")])] 0 env).value = .ret v →
        v.isPlain = true) := by
  refine ⟨_, _, _, rfl, rfl, rfl, by decide, rfl, by decide +kernel, ?_, ?_, ?_⟩
  · exact ((calls_keep_signals_inside _ (by decide)).1 _).1
  · exact ((calls_keep_signals_inside _ (by decide)).1 _).2
  · intro v
    exact ((calls_keep_signals_inside _ (by decide)).2 9 0 v).2.2 _

end LetLang
