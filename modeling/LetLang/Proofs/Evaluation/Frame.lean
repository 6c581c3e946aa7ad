import LetLang.Evaluation
import LetLang.Proofs.Environment.History
import Mathlib.Tactic.ByContra

/-!
# What an evaluation can change

An evaluation defines names in the innermost scope and does nothing else to its
environment, whether it ends with a value, a return or an error.  The names that
it can define are the targets of the `let` statements in the syntax, those in
branches that are not taken included.

The argument that a whole evaluation only does what its single definitions do is
carried out once, for every relation between the environments before and after.
-/

namespace LetLang

/-! ## Targets -/

mutual

/-- The names that the `let` statements in an expression define. -/
def Expr.targets : Expr → List String
  | .name _ | .int _ | .bool _ => []
  | .unary _ e => e.targets
  | .binary _ l r => l.targets ++ r.targets
  | .ifThen c t => c.targets ++ Stmt.targetsOfAll t
  | .ifElse c t e => c.targets ++ (Stmt.targetsOfAll t ++ Stmt.targetsOfAll e)

/-- The names that the `let` statements in a statement define. -/
def Stmt.targets : Stmt → List String
  | .bind x e => x :: e.targets
  | .ret e | .expr e => e.targets
  | .block b => Stmt.targetsOfAll b

/-- The names that the `let` statements in a sequence of statements define. -/
def Stmt.targetsOfAll : List Stmt → List String
  | [] => []
  | s :: b => s.targets ++ Stmt.targetsOfAll b

end

/-! ## Relations that definitions keep -/

/-- A relation between environments holds over any number of definitions of the
given names. -/
structure Admits (names : List String) (R : Environment → Environment → Prop) : Prop where
  refl : ∀ env, R env env
  trans : ∀ {env₁ env₂ env₃}, R env₁ env₂ → R env₂ env₃ → R env₁ env₃
  set : ∀ env, ∀ x ∈ names, ∀ v, R env (env.set x v)

namespace Admits

variable {names : List String} {R : Environment → Environment → Prop}

section Steps

variable (hR : Admits names R)
include hR

theorem andThen
    {env : Environment} {e : Evaluation} {next : Value → Environment → Evaluation}
    (he : R env e.env) (hnext : ∀ v env, R env (next v env).env) :
    R env (e.andThen next).env := by
  by_cases hsignal : e.value.isSignal = true
  · rw [Evaluation.andThen_of_isSignal hsignal]
    exact he
  · rw [Evaluation.andThen_of_not_isSignal (Bool.of_not_eq_true hsignal)]
    exact hR.trans he (hnext e.value e.env)

theorem enter
    {limit depth : Nat} {env : Environment} {inside : Nat → Evaluation}
    (hinside : ∀ depth, R env (inside depth).env) :
    R env (Evaluation.enter limit depth env inside).env := by
  by_cases hdepth : depth < limit
  · rw [Evaluation.enter, if_pos hdepth]
    exact hinside (depth + 1)
  · rw [Evaluation.enter, if_neg hdepth]
    exact hR.refl env

end Steps

mutual

theorem expr
    (hR : Admits names R) (limit : Nat) :
    (e : Expr) → e.targets ⊆ names → (depth : Nat) → (env : Environment) →
      R env (e.eval limit depth env).env
  | .name x, _, depth, env => by
      rw [Expr.eval]
      exact hR.enter fun _ => hR.refl env
  | .int n, _, depth, env => by
      rw [Expr.eval]
      exact hR.enter fun _ => hR.refl env
  | .bool b, _, depth, env => by
      rw [Expr.eval]
      exact hR.enter fun _ => hR.refl env
  | .unary op e, htargets, depth, env => by
      rw [Expr.targets] at htargets
      rw [Expr.eval]
      apply hR.enter
      intro depth
      apply hR.andThen (hR.expr limit e htargets depth env)
      intro v env
      exact hR.refl env
  | .binary op l r, htargets, depth, env => by
      rw [Expr.targets, List.append_subset] at htargets
      rw [Expr.eval]
      apply hR.enter
      intro depth
      apply hR.andThen (hR.expr limit l htargets.1 depth env)
      intro a env
      apply hR.andThen (hR.expr limit r htargets.2 depth env)
      intro b env
      exact hR.refl env
  | .ifThen c t, htargets, depth, env => by
      rw [Expr.targets, List.append_subset] at htargets
      rw [Expr.eval]
      apply hR.enter
      intro depth
      apply hR.andThen (hR.expr limit c htargets.1 depth env)
      intro v env
      split
      · exact hR.enter fun depth => hR.sequence limit t htargets.2 depth env .null
      · exact hR.refl env
  | .ifElse c t e, htargets, depth, env => by
      rw [Expr.targets, List.append_subset, List.append_subset] at htargets
      rw [Expr.eval]
      apply hR.enter
      intro depth
      apply hR.andThen (hR.expr limit c htargets.1 depth env)
      intro v env
      split
      · exact hR.enter fun depth => hR.sequence limit t htargets.2.1 depth env .null
      · exact hR.enter fun depth => hR.sequence limit e htargets.2.2 depth env .null

theorem stmt
    (hR : Admits names R) (limit : Nat) :
    (s : Stmt) → s.targets ⊆ names → (depth : Nat) → (env : Environment) →
      R env (s.eval limit depth env).env
  | .bind x e, htargets, depth, env => by
      rw [Stmt.targets, List.cons_subset] at htargets
      rw [Stmt.eval]
      apply hR.andThen (hR.expr limit e htargets.2 depth env)
      intro v env
      exact hR.set env x htargets.1 v
  | .ret e, htargets, depth, env => by
      rw [Stmt.targets] at htargets
      rw [Stmt.eval]
      apply hR.andThen (hR.expr limit e htargets depth env)
      intro v env
      exact hR.refl env
  | .expr e, htargets, depth, env => by
      rw [Stmt.targets] at htargets
      rw [Stmt.eval]
      exact hR.expr limit e htargets depth env
  | .block b, htargets, depth, env => by
      rw [Stmt.targets] at htargets
      rw [Stmt.eval]
      exact hR.enter fun depth => hR.sequence limit b htargets depth env .null

theorem sequence
    (hR : Admits names R) (limit : Nat) :
    (b : List Stmt) → Stmt.targetsOfAll b ⊆ names → (depth : Nat) → (env : Environment) →
      (last : Value) → R env (Stmt.evalAll limit b depth env last).env
  | [], _, depth, env, last => by
      rw [Stmt.evalAll]
      exact hR.refl env
  | s :: b, htargets, depth, env, last => by
      rw [Stmt.targetsOfAll, List.append_subset] at htargets
      rw [Stmt.evalAll]
      apply hR.andThen (hR.stmt limit s htargets.1 depth env)
      intro v env
      exact hR.sequence limit b htargets.2 depth env v

end

end Admits

/-! ## The frame -/

/-- What may happen to an environment when some names are defined: the scopes
around the innermost one stay as they are, its names keep their places, and only
the given names can be new or have new values. -/
structure Environment.Extends (targets : List String) (env env' : Environment) : Prop where
  enclosing : env'.enclosing = env.enclosing
  names : env.innermost.names <+: env'.innermost.names
  changed : ∀ x, env'.innermost.get? x ≠ env.innermost.get? x → x ∈ targets

namespace Environment.Extends

variable {targets : List String} {env env' env'' : Environment}

theorem refl (env : Environment) : env.Extends targets env :=
  ⟨rfl, List.prefix_refl _, fun _ hx => absurd rfl hx⟩

theorem trans (h : env.Extends targets env') (h' : env'.Extends targets env'') :
    env.Extends targets env'' := by
  refine ⟨h'.enclosing.trans h.enclosing, h.names.trans h'.names, ?_⟩
  intro x hx
  by_cases hget : env'.innermost.get? x = env.innermost.get? x
  · exact h'.changed x (hget ▸ hx)
  · exact h.changed x hget

theorem of_set {x : String} (hx : x ∈ targets) (v : Value) :
    env.Extends targets (env.set x v) := by
  refine ⟨rfl, ?_, ?_⟩
  · change env.innermost.names <+: (env.innermost.set x v).names
    rw [Scope.names_set]
    split
    · exact List.prefix_refl _
    · exact List.prefix_append _ _
  · intro y hy
    by_contra hmem
    have hne : y ≠ x := fun h => hmem (h ▸ hx)
    exact hy ((Scope.get?_set env.innermost x y v).trans (if_neg hne))

/-- If no name is defined, nothing changes. -/
theorem eq_of_nil (h : env.Extends [] env') : env' = env := by
  have hget : ∀ x, env'.innermost.get? x = env.innermost.get? x := by
    intro x
    by_contra hx
    exact absurd (h.changed x hx) List.not_mem_nil
  have hnames : env'.innermost.names = env.innermost.names := by
    obtain ⟨new, hnew⟩ := h.names
    cases new with
    | nil => rw [← hnew, List.append_nil]
    | cons x new =>
        -- A new name has a value that it did not have before.
        have hnodup : (env.innermost.names ++ x :: new).Nodup := hnew ▸ env'.innermost.nodup
        have hbefore : x ∉ env.innermost.names :=
          fun hx => (List.nodup_append.mp hnodup).2.2 x hx x List.mem_cons_self rfl
        have hafter : x ∈ env'.innermost.names := by simp [← hnew]
        have hnone := (hget x).trans (Scope.get?_eq_none_iff.mpr hbefore)
        exact absurd hafter (Scope.get?_eq_none_iff.mp hnone)
  have hinnermost : env'.innermost = env.innermost := Scope.ext_names_get? hnames hget
  cases env
  cases env'
  exact congrArg₂ Environment.mk hinnermost h.enclosing

end Environment.Extends

theorem admits_extends (targets : List String) : Admits targets (Environment.Extends targets) :=
  ⟨Environment.Extends.refl, Environment.Extends.trans, fun _ _ hx v => .of_set hx v⟩

/-- Every evaluation, however it ends, leaves the scopes around the innermost one
alone, keeps the names of the innermost one in their places and changes nothing
but the targets of `let` statements. -/
theorem eval_extends (limit depth : Nat) (env : Environment) :
    (∀ e : Expr, env.Extends e.targets (e.eval limit depth env).env ∧
      (e.targets = [] → (e.eval limit depth env).env = env)) ∧
    (∀ s : Stmt, env.Extends s.targets (s.eval limit depth env).env ∧
      (s.targets = [] → (s.eval limit depth env).env = env)) ∧
    (∀ b : Block, env.Extends (Stmt.targetsOfAll b) (Block.eval limit b depth env).env ∧
      (Stmt.targetsOfAll b = [] → (Block.eval limit b depth env).env = env)) ∧
    (∀ p : Program, env.Extends (Stmt.targetsOfAll p.statements) (p.eval limit env).env ∧
      (Stmt.targetsOfAll p.statements = [] → (p.eval limit env).env = env)) := by
  have hframe {targets : List String} {env' : Environment} (h : env.Extends targets env') :
      env.Extends targets env' ∧ (targets = [] → env' = env) := by
    refine ⟨h, ?_⟩
    rintro rfl
    exact h.eq_of_nil
  refine ⟨?_, ?_, ?_, ?_⟩
  · intro e
    exact hframe ((admits_extends e.targets).expr limit e (List.Subset.refl _) depth env)
  · intro s
    exact hframe ((admits_extends s.targets).stmt limit s (List.Subset.refl _) depth env)
  · intro b
    have hadmits := admits_extends (Stmt.targetsOfAll b)
    apply hframe
    apply hadmits.enter
    intro depth
    exact hadmits.sequence limit b (List.Subset.refl _) depth env .null
  · intro p
    have hadmits := admits_extends (Stmt.targetsOfAll p.statements)
    exact hframe (hadmits.sequence limit p.statements (List.Subset.refl _) 0 env .null)

/-- The left operand defines two names and fails, so the definition in the right
one is not reached. -/
theorem eval_extends_fault :
    ∃ (env : Environment) (e : Expr),
      env = (Environment.empty.set "x" (.bool true)).enclosed.set "y" .null ∧
      e = .binary .add
        (.ifThen (.name "x") [.bind "z" (.bool false), .bind "y" (.name "x"), .expr (.name "w")])
        (.ifThen (.name "x") [.bind "x" (.bool false)]) ∧
      (e.eval 9 0 env).value = .err (.unbound "w") ∧
      (e.eval 9 0 env).env = (env.set "z" (.bool false)).set "y" (.bool true) ∧
      e.targets = ["z", "y", "x"] ∧ env.Extends e.targets (e.eval 9 0 env).env ∧
      (Expr.name "w").targets = [] ∧ ((Expr.name "w").eval 9 0 env).env = env := by
  refine ⟨_, _, rfl, rfl, rfl, rfl, rfl, ?_, rfl, ?_⟩
  · exact ((eval_extends 9 0 _).1 _).1
  · exact ((eval_extends 9 0 _).1 _).2 rfl

end LetLang
