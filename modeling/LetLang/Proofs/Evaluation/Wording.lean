import LetLang.Evaluation
import LetLang.Proofs.Evaluation.Plain
import LetLang.Proofs.Rendering.OneLine

/-!
# The wording of values and faults

A fault quotes at most one piece of the program, a name that is not bound.  When all
names in a program are proper ones, so are the names that its evaluation binds and
the names in its faults, and the values that it binds and yields are plain.
-/

namespace LetLang

/-- All bindings are plain values under proper names. -/
structure Environment.IsTidy (env : Environment) : Prop where
  isPlain : env.isPlain = true
  isName : ∀ x, (env.get? x).isSome = true → LetLang.isName x = true

theorem Environment.isTidy_empty : Environment.empty.IsTidy :=
  ⟨rfl, fun _ h => absurd h Bool.false_ne_true⟩

theorem Environment.IsTidy.set
    {env : Environment} (henv : env.IsTidy) {x : String} (hx : LetLang.isName x = true)
    {v : Value} (hv : v.isPlain = true) : (env.set x v).IsTidy := by
  refine ⟨isPlain_set henv.isPlain hv x, fun y hy => ?_⟩
  rw [get?_set] at hy
  by_cases hyx : y = x
  · rwa [hyx]
  · rw [if_neg hyx] at hy
    exact henv.isName y hy

/-- Whether a value is plain, the return of a plain one, or a fault that is worded
properly. -/
def Value.isWorded : Value → Bool
  | int _ | bool _ | null => true
  | ret v => v.isPlain
  | err fault => fault.isWorded

theorem Value.isWorded_of_isPlain {v : Value} (hv : v.isPlain = true) : v.isWorded = true := by
  cases v with
  | ret v => cases hv
  | err fault => cases hv
  | _ => rfl

theorem Value.isWorded_of_isComputed {v : Value} (hv : v.isComputed = true) :
    v.isWorded = true := by
  cases v with
  | ret v => cases hv
  | err fault =>
      cases fault with
      | unbound name => cases hv
      | stated message => cases hv
      | _ => rfl
  | _ => rfl

theorem Value.isPlain_of_isWorded
    {v : Value} (hv : v.isWorded = true) (hsignal : v.isSignal = false) : v.isPlain = true := by
  cases v with
  | ret v => cases hsignal
  | err fault => cases hsignal
  | _ => rfl

/-- A program ends with a plain value or with a fault. -/
theorem Value.isWorded_unwrapReturn
    {v : Value} (hv : v.isWorded = true) : v.unwrapReturn.isWorded = true := by
  cases v with
  | ret v => exact isWorded_of_isPlain hv
  | _ => exact hv

/-- The environment that is left is tidy, and the value is worded properly. -/
structure Evaluation.IsTidy (e : Evaluation) : Prop where
  env : e.env.IsTidy
  value : e.value.isWorded = true

namespace Evaluation.IsTidy

variable {limit depth : Nat} {env : Environment} {e : Evaluation}

theorem done {v : Value} (henv : env.IsTidy) (hv : v.isWorded = true) :
    (Evaluation.done v env).IsTidy :=
  ⟨henv, hv⟩

theorem andThen
    {next : Value → Environment → Evaluation} (he : e.IsTidy)
    (hnext : ∀ v env, v.isPlain = true → env.IsTidy → (next v env).IsTidy) :
    (e.andThen next).IsTidy := by
  by_cases hsignal : e.value.isSignal = true
  · rw [andThen_of_isSignal hsignal]
    exact he
  · have hplain := e.value.isPlain_of_isWorded he.value (Bool.of_not_eq_true hsignal)
    rw [andThen_of_not_isSignal (Bool.of_not_eq_true hsignal)]
    obtain ⟨henv, hvalue⟩ := hnext e.value e.env hplain he.env
    exact ⟨henv, hvalue⟩

theorem enter
    {inside : Nat → Evaluation} (henv : env.IsTidy) (h : (inside (depth + 1)).IsTidy) :
    (Evaluation.enter limit depth env inside).IsTidy := by
  by_cases hdepth : depth < limit
  · rw [Evaluation.enter, if_pos hdepth]
    exact h
  · rw [Evaluation.enter, if_neg hdepth]
    exact .done henv rfl

theorem visiting (kind : ExprKind) (depth : Nat) (h : e.IsTidy) :
    (Evaluation.visiting kind depth e).IsTidy :=
  ⟨h.env, h.value⟩

/-- A name that is not bound is one of the program. -/
theorem lookup {x : String} (henv : env.IsTidy) (hx : isName x = true) :
    (Evaluation.done ((env.get? x).getD (.err (.unbound x))) env).IsTidy := by
  refine .done henv ?_
  cases hget : env.get? x with
  | none => exact hx
  | some v => exact Value.isWorded_of_isPlain (Environment.isPlain_of_get? henv.isPlain hget)

mutual

theorem expr (limit : Nat) :
    (e : Expr) → e.isWellFormed = true → (depth : Nat) → {env : Environment} → env.IsTidy →
      (e.eval limit depth env).IsTidy
  | .name x, hx, depth, env, henv => by
      rw [Expr.eval]
      exact .enter henv (.visiting _ _ (.lookup henv hx))
  | .int n, _, depth, env, henv => by
      rw [Expr.eval]
      exact .enter henv (.visiting _ _ (.done henv rfl))
  | .bool b, _, depth, env, henv => by
      rw [Expr.eval]
      exact .enter henv (.visiting _ _ (.done henv rfl))
  | .unary op e, he, depth, env, henv => by
      rw [Expr.isWellFormed] at he
      rw [Expr.eval]
      apply IsTidy.enter henv
      apply IsTidy.visiting
      apply (expr limit e he _ henv).andThen
      intro v env _ henv
      exact .done henv (Value.isWorded_of_isComputed (op.isComputed_apply v))
  | .binary op l r, h, depth, env, henv => by
      rw [Expr.isWellFormed, Bool.and_eq_true] at h
      rw [Expr.eval]
      apply IsTidy.enter henv
      apply IsTidy.visiting
      apply (expr limit l h.1 _ henv).andThen
      intro a env _ henv
      apply (expr limit r h.2 _ henv).andThen
      intro b env _ henv
      exact .done henv (Value.isWorded_of_isComputed (op.isComputed_apply a b))
  | .ifThen c t, h, depth, env, henv => by
      rw [Expr.isWellFormed, Bool.and_eq_true] at h
      rw [Expr.eval]
      apply IsTidy.enter henv
      apply IsTidy.visiting
      apply (expr limit c h.1 _ henv).andThen
      intro v env _ henv
      split
      · exact .enter henv (sequence limit t h.2 _ henv rfl)
      · exact .done henv rfl
  | .ifElse c t e, h, depth, env, henv => by
      rw [Expr.isWellFormed, Bool.and_eq_true, Bool.and_eq_true] at h
      rw [Expr.eval]
      apply IsTidy.enter henv
      apply IsTidy.visiting
      apply (expr limit c h.1.1 _ henv).andThen
      intro v env _ henv
      split
      · exact .enter henv (sequence limit t h.1.2 _ henv rfl)
      · exact .enter henv (sequence limit e h.2 _ henv rfl)

theorem stmt (limit : Nat) :
    (s : Stmt) → s.isWellFormed = true → (depth : Nat) → {env : Environment} → env.IsTidy →
      (s.eval limit depth env).IsTidy
  | .bind x e, h, depth, env, henv => by
      rw [Stmt.isWellFormed, Bool.and_eq_true] at h
      rw [Stmt.eval]
      apply (expr limit e h.2 depth henv).andThen
      intro v env hv henv
      exact .done (henv.set h.1 hv) (Value.isWorded_of_isPlain hv)
  | .ret e, he, depth, env, henv => by
      rw [Stmt.isWellFormed] at he
      rw [Stmt.eval]
      apply (expr limit e he depth henv).andThen
      intro v env hv henv
      exact .done henv hv
  | .expr e, he, depth, env, henv => by
      rw [Stmt.isWellFormed] at he
      rw [Stmt.eval]
      exact expr limit e he depth henv
  | .block b, hb, depth, env, henv => by
      rw [Stmt.isWellFormed] at hb
      rw [Stmt.eval]
      exact .enter henv (sequence limit b hb _ henv rfl)

theorem sequence (limit : Nat) :
    (b : List Stmt) → Stmt.areWellFormed b = true → (depth : Nat) → {env : Environment} →
      env.IsTidy → {last : Value} → last.isPlain = true →
        (Stmt.evalAll limit b depth env last).IsTidy
  | [], _, depth, env, henv, last, hlast => by
      rw [Stmt.evalAll]
      exact .done henv (Value.isWorded_of_isPlain hlast)
  | s :: b, h, depth, env, henv, last, _ => by
      rw [Stmt.areWellFormed, Bool.and_eq_true] at h
      rw [Stmt.evalAll]
      apply (stmt limit s h.1 depth henv).andThen
      intro v env hv henv
      exact sequence limit b h.2 depth henv hv

end

theorem program
    (limit : Nat) {p : Program} (hp : p.isWellFormed = true) (henv : env.IsTidy) :
    (p.eval limit env).IsTidy := by
  have hbody : (Stmt.evalAll limit p.statements 0 env .null).IsTidy :=
    sequence limit p.statements hp 0 henv rfl
  exact ⟨hbody.env, Value.isWorded_unwrapReturn hbody.value⟩

end Evaluation.IsTidy

end LetLang
