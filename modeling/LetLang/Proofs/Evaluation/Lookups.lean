import LetLang.Proofs.Environment.History
import LetLang.Proofs.Evaluation.Frame
import LetLang.Run

/-!
# Evaluation sees an environment through its look-ups

Two environments may differ in the number of their scopes and in what the scopes
hold, and still give the same values to the names that a program refers to.  Then
the program cannot tell them apart: it makes the same definitions with the same
values in the same order, and ends with the same value.

To speak of the definitions that are made, the evaluator is written once more with a
log of them.  Without the log it is the evaluator, and the log accounts for the whole
change of the environment.
-/

namespace LetLang

/-! ## References -/

mutual

/-- The names that an expression refers to. -/
def Expr.references : Expr → List String
  | .name x => [x]
  | .int _ | .bool _ => []
  | .unary _ e => e.references
  | .binary _ l r => l.references ++ r.references
  | .ifThen c t => c.references ++ Stmt.referencesOfAll t
  | .ifElse c t e => c.references ++ (Stmt.referencesOfAll t ++ Stmt.referencesOfAll e)

/-- The names that a statement refers to; the name that it defines is none of them. -/
def Stmt.references : Stmt → List String
  | .bind _ e | .ret e | .expr e => e.references
  | .block b => Stmt.referencesOfAll b

/-- The names that the statements of a sequence refer to. -/
def Stmt.referencesOfAll : List Stmt → List String
  | [] => []
  | s :: b => s.references ++ Stmt.referencesOfAll b

end

/-! ## Evaluation with a log -/

/-- An evaluation with the definitions that it made, in order. -/
structure Logged extends Evaluation where
  definitions : Log

namespace Logged

/-- A value without any evaluation. -/
def done (value : Value) (env : Environment) : Logged :=
  ⟨.done value env, []⟩

/-- Defines a name, which is noted in the log. -/
def define (x : String) (v : Value) (env : Environment) : Logged :=
  ⟨.done v (env.set x v), [(x, v)]⟩

/-- Goes on with the value of an evaluation, unless it is a signal. -/
def andThen (l : Logged) (next : Value → Environment → Logged) : Logged :=
  if l.value.isSignal then
    l
  else
    let m := next l.value l.env
    ⟨⟨m.value, m.env, l.visits ++ m.visits⟩, l.definitions ++ m.definitions⟩

/-- Evaluates something one level deeper, if the limit allows another level. -/
def enter (limit depth : Nat) (env : Environment) (inside : Nat → Logged) : Logged :=
  if depth < limit then inside (depth + 1) else done (.err (.tooDeep limit)) env

/-- Puts the expression that is being evaluated in front of the trace. -/
def visiting (kind : ExprKind) (depth : Nat) (l : Logged) : Logged :=
  ⟨.visiting kind depth l.toEvaluation, l.definitions⟩

end Logged

open Logged

mutual

/-- Evaluates an expression with a log. -/
def Expr.evalLogging (limit : Nat) : Expr → (depth : Nat) → Environment → Logged
  | .name x, depth, env =>
      enter limit depth env fun depth =>
        visiting .name depth <| done ((env.get? x).getD (.err (.unbound x))) env
  | .int n, depth, env =>
      enter limit depth env fun depth =>
        visiting .int depth <| done (.int n) env
  | .bool b, depth, env =>
      enter limit depth env fun depth =>
        visiting .bool depth <| done (.bool b) env
  | .unary op e, depth, env =>
      enter limit depth env fun depth =>
        visiting .unary depth <|
          (e.evalLogging limit depth env).andThen fun v env => done (op.apply v) env
  | .binary op l r, depth, env =>
      enter limit depth env fun depth =>
        visiting .binary depth <|
          (l.evalLogging limit depth env).andThen fun a env =>
            (r.evalLogging limit depth env).andThen fun b env => done (op.apply a b) env
  | .ifThen c t, depth, env =>
      enter limit depth env fun depth =>
        visiting .conditional depth <|
          (c.evalLogging limit depth env).andThen fun v env =>
            if v.isTruthy then
              enter limit depth env fun depth => Stmt.evalAllLogging limit t depth env .null
            else
              done .null env
  | .ifElse c t e, depth, env =>
      enter limit depth env fun depth =>
        visiting .conditional depth <|
          (c.evalLogging limit depth env).andThen fun v env =>
            if v.isTruthy then
              enter limit depth env fun depth => Stmt.evalAllLogging limit t depth env .null
            else
              enter limit depth env fun depth => Stmt.evalAllLogging limit e depth env .null

/-- Evaluates a statement with a log. -/
def Stmt.evalLogging (limit : Nat) : Stmt → (depth : Nat) → Environment → Logged
  | .bind x e, depth, env => (e.evalLogging limit depth env).andThen fun v env => define x v env
  | .ret e, depth, env =>
      (e.evalLogging limit depth env).andThen fun v env => done (.ret v) env
  | .expr e, depth, env => e.evalLogging limit depth env
  | .block b, depth, env =>
      enter limit depth env fun depth => Stmt.evalAllLogging limit b depth env .null

/-- Evaluates statements in order with a log. -/
def Stmt.evalAllLogging (limit : Nat) :
    List Stmt → (depth : Nat) → Environment → (last : Value) → Logged
  | [], _, env, last => done last env
  | s :: rest, depth, env, _ =>
      (s.evalLogging limit depth env).andThen fun v env => Stmt.evalAllLogging limit rest depth env v

end

/-- Evaluates a block with a log. -/
def Block.evalLogging (limit : Nat) (b : Block) (depth : Nat) (env : Environment) : Logged :=
  enter limit depth env fun depth => Stmt.evalAllLogging limit b depth env .null

/-- Evaluates a program with a log. -/
def Program.evalLogging (limit : Nat) (p : Program) (env : Environment) : Logged :=
  let l := Stmt.evalAllLogging limit p.statements 0 env .null
  { l with value := l.value.unwrapReturn }

/-! ## The log accounts for the evaluation -/

/-- The environment after the definitions of a log. -/
def Environment.defineAll (env : Environment) (log : Log) : Environment :=
  log.foldl (fun env d => env.set d.1 d.2) env

theorem Environment.get?_defineAll (env : Environment) (log : Log) (x : String) :
    (env.defineAll log).get? x = (log.latest? x).or (env.get? x) := by
  induction log using List.reverseRecOn with
  | nil => rfl
  | append_singleton log d ih =>
      have hlast : env.defineAll (log ++ [d]) = (env.defineAll log).set d.1 d.2 := by
        simp [defineAll]
      rw [hlast, get?_set, ih, Log.latest?_concat]
      split
      · rfl
      · rfl

theorem Log.latest?_eq_none_iff {log : Log} {x : String} :
    log.latest? x = none ↔ x ∉ log.map Prod.fst := by
  simp only [latest?, Option.map_eq_none_iff, List.getLast?_eq_none_iff, List.filter_eq_nil_iff,
    decide_eq_true_eq, List.mem_map, not_exists, not_and]

/-- Without its log, `l` is the evaluation `e`, and the definitions in the log, made
one after the other, change `env` as `e` does. -/
structure Logged.Accounts (l : Logged) (env : Environment) (e : Evaluation) : Prop where
  erased : l.toEvaluation = e
  replayed : e.env = env.defineAll l.definitions

namespace Logged.Accounts

variable {limit depth : Nat} {env : Environment} {l : Logged} {e : Evaluation}

theorem done (v : Value) : (Logged.done v env).Accounts env (.done v env) :=
  ⟨rfl, rfl⟩

theorem define (x : String) (v : Value) :
    (Logged.define x v env).Accounts env (.done v (env.set x v)) :=
  ⟨rfl, rfl⟩

theorem andThen
    {next : Value → Environment → Logged} {next' : Value → Environment → Evaluation}
    (h : l.Accounts env e) (hnext : ∀ v env, (next v env).Accounts env (next' v env)) :
    (l.andThen next).Accounts env (e.andThen next') := by
  obtain ⟨rfl, hreplayed⟩ := h
  by_cases hsignal : l.value.isSignal = true
  · rw [Logged.andThen, if_pos hsignal, Evaluation.andThen_of_isSignal hsignal]
    exact ⟨rfl, hreplayed⟩
  · rw [Logged.andThen, if_neg hsignal,
      Evaluation.andThen_of_not_isSignal (Bool.of_not_eq_true hsignal)]
    obtain ⟨herased', hreplayed'⟩ := hnext l.value l.env
    constructor
    · rw [← herased']
    · rw [hreplayed', hreplayed, Environment.defineAll, Environment.defineAll,
        Environment.defineAll, List.foldl_append]

theorem enter
    {inside : Nat → Logged} {inside' : Nat → Evaluation}
    (h : (inside (depth + 1)).Accounts env (inside' (depth + 1))) :
    (Logged.enter limit depth env inside).Accounts env
      (Evaluation.enter limit depth env inside') := by
  by_cases hdepth : depth < limit
  · rw [Logged.enter, if_pos hdepth, Evaluation.enter, if_pos hdepth]
    exact h
  · rw [Logged.enter, if_neg hdepth, Evaluation.enter, if_neg hdepth]
    exact .done _

theorem visiting (kind : ExprKind) (depth : Nat) (h : l.Accounts env e) :
    (Logged.visiting kind depth l).Accounts env (Evaluation.visiting kind depth e) := by
  obtain ⟨rfl, hreplayed⟩ := h
  exact ⟨rfl, hreplayed⟩

mutual

theorem expr (limit : Nat) :
    (e : Expr) → (depth : Nat) → (env : Environment) →
      (e.evalLogging limit depth env).Accounts env (e.eval limit depth env)
  | .name x, depth, env => by
      rw [Expr.evalLogging, Expr.eval]
      exact .enter (.visiting _ _ (.done _))
  | .int n, depth, env => by
      rw [Expr.evalLogging, Expr.eval]
      exact .enter (.visiting _ _ (.done _))
  | .bool b, depth, env => by
      rw [Expr.evalLogging, Expr.eval]
      exact .enter (.visiting _ _ (.done _))
  | .unary op e, depth, env => by
      rw [Expr.evalLogging, Expr.eval]
      apply Accounts.enter
      apply Accounts.visiting
      apply (expr limit e _ env).andThen
      intro v env
      exact .done _
  | .binary op l r, depth, env => by
      rw [Expr.evalLogging, Expr.eval]
      apply Accounts.enter
      apply Accounts.visiting
      apply (expr limit l _ env).andThen
      intro a env
      apply (expr limit r _ env).andThen
      intro b env
      exact .done _
  | .ifThen c t, depth, env => by
      rw [Expr.evalLogging, Expr.eval]
      apply Accounts.enter
      apply Accounts.visiting
      apply (expr limit c _ env).andThen
      intro v env
      split
      · exact .enter (sequence limit t _ env _)
      · exact .done _
  | .ifElse c t e, depth, env => by
      rw [Expr.evalLogging, Expr.eval]
      apply Accounts.enter
      apply Accounts.visiting
      apply (expr limit c _ env).andThen
      intro v env
      split
      · exact .enter (sequence limit t _ env _)
      · exact .enter (sequence limit e _ env _)

theorem stmt (limit : Nat) :
    (s : Stmt) → (depth : Nat) → (env : Environment) →
      (s.evalLogging limit depth env).Accounts env (s.eval limit depth env)
  | .bind x e, depth, env => by
      rw [Stmt.evalLogging, Stmt.eval]
      apply (expr limit e depth env).andThen
      intro v env
      exact .define x v
  | .ret e, depth, env => by
      rw [Stmt.evalLogging, Stmt.eval]
      apply (expr limit e depth env).andThen
      intro v env
      exact .done _
  | .expr e, depth, env => by
      rw [Stmt.evalLogging, Stmt.eval]
      exact expr limit e depth env
  | .block b, depth, env => by
      rw [Stmt.evalLogging, Stmt.eval]
      exact .enter (sequence limit b _ env _)

theorem sequence (limit : Nat) :
    (b : List Stmt) → (depth : Nat) → (env : Environment) → (last : Value) →
      (Stmt.evalAllLogging limit b depth env last).Accounts env
        (Stmt.evalAll limit b depth env last)
  | [], depth, env, last => by
      rw [Stmt.evalAllLogging, Stmt.evalAll]
      exact .done _
  | s :: b, depth, env, last => by
      rw [Stmt.evalAllLogging, Stmt.evalAll]
      apply (stmt limit s depth env).andThen
      intro v env
      exact sequence limit b depth env v

end

theorem block (limit : Nat) (b : Block) (depth : Nat) (env : Environment) :
    (Block.evalLogging limit b depth env).Accounts env (Block.eval limit b depth env) :=
  .enter (sequence limit b _ env _)

theorem program (limit : Nat) (p : Program) (env : Environment) :
    (p.evalLogging limit env).Accounts env (p.eval limit env) := by
  obtain ⟨herased, hreplayed⟩ := sequence limit p.statements 0 env .null
  constructor
  · rw [Program.evalLogging, Program.eval, ← herased]
  · exact hreplayed

end Logged.Accounts

/-! ## Environments that cannot be told apart -/

/-- Two environments give the same to each of some names. -/
def Environment.AgreeOn (names : List String) (env env' : Environment) : Prop :=
  ∀ x ∈ names, env.get? x = env'.get? x

theorem Environment.AgreeOn.set
    {names : List String} {env env' : Environment} (h : AgreeOn names env env')
    (x : String) (v : Value) : AgreeOn names (env.set x v) (env'.set x v) := by
  intro y hy
  rw [get?_set, get?_set, h y hy]

theorem Environment.agreeOn_enclosed (names : List String) (env : Environment) :
    AgreeOn names env.enclosed env := by
  intro x _
  rfl

/-- Two evaluations take the same course, and the environments that they leave give
the same to each of some names. -/
structure Logged.Alike (names : List String) (l l' : Logged) : Prop where
  value : l.value = l'.value
  visits : l.visits = l'.visits
  definitions : l.definitions = l'.definitions
  env : l.env.AgreeOn names l'.env

namespace Logged.Alike

variable {names : List String} {limit depth : Nat} {env env' : Environment} {l l' : Logged}

theorem done (v : Value) (henv : env.AgreeOn names env') :
    Alike names (Logged.done v env) (Logged.done v env') :=
  ⟨rfl, rfl, rfl, henv⟩

theorem define (x : String) (v : Value) (henv : env.AgreeOn names env') :
    Alike names (Logged.define x v env) (Logged.define x v env') :=
  ⟨rfl, rfl, rfl, henv.set x v⟩

theorem andThen
    {next next' : Value → Environment → Logged} (h : Alike names l l')
    (hnext : ∀ v env env', env.AgreeOn names env' → Alike names (next v env) (next' v env')) :
    Alike names (l.andThen next) (l'.andThen next') := by
  by_cases hsignal : l.value.isSignal = true
  · have hsignal' : l'.value.isSignal = true := h.value ▸ hsignal
    rw [Logged.andThen, if_pos hsignal, Logged.andThen, if_pos hsignal']
    exact h
  · have hsignal' : ¬l'.value.isSignal = true := h.value ▸ hsignal
    rw [Logged.andThen, if_neg hsignal, Logged.andThen, if_neg hsignal', ← h.value, ← h.visits,
      ← h.definitions]
    obtain ⟨hvalue, hvisits, hdefinitions, henv⟩ := hnext l.value l.env l'.env h.env
    exact ⟨hvalue, congrArg (l.visits ++ ·) hvisits, congrArg (l.definitions ++ ·) hdefinitions,
      henv⟩

theorem enter
    {inside inside' : Nat → Logged} (henv : env.AgreeOn names env')
    (h : Alike names (inside (depth + 1)) (inside' (depth + 1))) :
    Alike names (Logged.enter limit depth env inside) (Logged.enter limit depth env' inside') := by
  by_cases hdepth : depth < limit
  · rw [Logged.enter, if_pos hdepth, Logged.enter, if_pos hdepth]
    exact h
  · rw [Logged.enter, if_neg hdepth, Logged.enter, if_neg hdepth]
    exact .done _ henv

theorem visiting (kind : ExprKind) (depth : Nat) (h : Alike names l l') :
    Alike names (Logged.visiting kind depth l) (Logged.visiting kind depth l') := by
  refine ⟨h.value, ?_, h.definitions, h.env⟩
  rw [Logged.visiting, Logged.visiting, Evaluation.visiting, Evaluation.visiting, h.visits]

mutual

/-- Of all steps only the look-up of a name consults the environment, and the name is
one of those that are referred to. -/
theorem expr (limit : Nat) :
    (e : Expr) → e.references ⊆ names → (depth : Nat) → {env env' : Environment} →
      env.AgreeOn names env' →
      Alike names (e.evalLogging limit depth env) (e.evalLogging limit depth env')
  | .name x, hnames, depth, env, env', henv => by
      rw [Expr.references] at hnames
      rw [Expr.evalLogging, Expr.evalLogging, henv x (hnames (List.mem_singleton_self x))]
      exact .enter henv (.visiting _ _ (.done _ henv))
  | .int n, _, depth, env, env', henv => by
      rw [Expr.evalLogging, Expr.evalLogging]
      exact .enter henv (.visiting _ _ (.done _ henv))
  | .bool b, _, depth, env, env', henv => by
      rw [Expr.evalLogging, Expr.evalLogging]
      exact .enter henv (.visiting _ _ (.done _ henv))
  | .unary op e, hnames, depth, env, env', henv => by
      rw [Expr.references] at hnames
      rw [Expr.evalLogging, Expr.evalLogging]
      apply Alike.enter henv
      apply Alike.visiting
      apply (expr limit e hnames _ henv).andThen
      intro v env env' henv
      exact .done _ henv
  | .binary op l r, hnames, depth, env, env', henv => by
      rw [Expr.references, List.append_subset] at hnames
      rw [Expr.evalLogging, Expr.evalLogging]
      apply Alike.enter henv
      apply Alike.visiting
      apply (expr limit l hnames.1 _ henv).andThen
      intro a env env' henv
      apply (expr limit r hnames.2 _ henv).andThen
      intro b env env' henv
      exact .done _ henv
  | .ifThen c t, hnames, depth, env, env', henv => by
      rw [Expr.references, List.append_subset] at hnames
      rw [Expr.evalLogging, Expr.evalLogging]
      apply Alike.enter henv
      apply Alike.visiting
      apply (expr limit c hnames.1 _ henv).andThen
      intro v env env' henv
      split
      · exact .enter henv (sequence limit t hnames.2 _ henv _)
      · exact .done _ henv
  | .ifElse c t e, hnames, depth, env, env', henv => by
      rw [Expr.references, List.append_subset, List.append_subset] at hnames
      rw [Expr.evalLogging, Expr.evalLogging]
      apply Alike.enter henv
      apply Alike.visiting
      apply (expr limit c hnames.1 _ henv).andThen
      intro v env env' henv
      split
      · exact .enter henv (sequence limit t hnames.2.1 _ henv _)
      · exact .enter henv (sequence limit e hnames.2.2 _ henv _)

theorem stmt (limit : Nat) :
    (s : Stmt) → s.references ⊆ names → (depth : Nat) → {env env' : Environment} →
      env.AgreeOn names env' →
      Alike names (s.evalLogging limit depth env) (s.evalLogging limit depth env')
  | .bind x e, hnames, depth, env, env', henv => by
      rw [Stmt.references] at hnames
      rw [Stmt.evalLogging, Stmt.evalLogging]
      apply (expr limit e hnames depth henv).andThen
      intro v env env' henv
      exact .define x v henv
  | .ret e, hnames, depth, env, env', henv => by
      rw [Stmt.references] at hnames
      rw [Stmt.evalLogging, Stmt.evalLogging]
      apply (expr limit e hnames depth henv).andThen
      intro v env env' henv
      exact .done _ henv
  | .expr e, hnames, depth, env, env', henv => by
      rw [Stmt.references] at hnames
      rw [Stmt.evalLogging, Stmt.evalLogging]
      exact expr limit e hnames depth henv
  | .block b, hnames, depth, env, env', henv => by
      rw [Stmt.references] at hnames
      rw [Stmt.evalLogging, Stmt.evalLogging]
      exact .enter henv (sequence limit b hnames _ henv _)

theorem sequence (limit : Nat) :
    (b : List Stmt) → Stmt.referencesOfAll b ⊆ names → (depth : Nat) →
      {env env' : Environment} → env.AgreeOn names env' → (last : Value) →
      Alike names (Stmt.evalAllLogging limit b depth env last)
        (Stmt.evalAllLogging limit b depth env' last)
  | [], _, depth, env, env', henv, last => by
      rw [Stmt.evalAllLogging, Stmt.evalAllLogging]
      exact .done _ henv
  | s :: b, hnames, depth, env, env', henv, last => by
      rw [Stmt.referencesOfAll, List.append_subset] at hnames
      rw [Stmt.evalAllLogging, Stmt.evalAllLogging]
      apply (stmt limit s hnames.1 depth henv).andThen
      intro v env env' henv
      exact sequence limit b hnames.2 depth henv v

end

theorem program
    (limit : Nat) (p : Program) (hnames : Stmt.referencesOfAll p.statements ⊆ names)
    (henv : env.AgreeOn names env') :
    Alike names (p.evalLogging limit env) (p.evalLogging limit env') := by
  obtain ⟨hvalue, hvisits, hdefinitions, henv'⟩ :=
    sequence limit p.statements hnames 0 henv .null
  exact ⟨congrArg Value.unwrapReturn hvalue, hvisits, hdefinitions, henv'⟩

end Logged.Alike

/-- The evaluations `e` from `env` and `e'` from `env'`, with the logs in `l` and `l'`,
have the same value, enter the same expressions and make the same definitions, and the
environments that they leave give the same to all given and all defined names. -/
structure SameCourse
    (names : List String) (env env' : Environment) (l l' : Logged) (e e' : Evaluation) :
    Prop where
  accounts : l.Accounts env e
  accounts' : l'.Accounts env' e'
  value : e.value = e'.value
  visits : e.visits = e'.visits
  definitions : l.definitions = l'.definitions
  env : e.env.AgreeOn (names ++ l.definitions.map Prod.fst) e'.env

theorem Logged.Alike.sameCourse
    {names : List String} {env env' : Environment} {l l' : Logged} {e e' : Evaluation}
    (h : Alike names l l') (haccounts : l.Accounts env e) (haccounts' : l'.Accounts env' e') :
    SameCourse names env env' l l' e e' := by
  refine ⟨haccounts, haccounts', ?_, ?_, h.definitions, ?_⟩
  · rw [← haccounts.erased, ← haccounts'.erased]
    exact h.value
  · rw [← haccounts.erased, ← haccounts'.erased]
    exact h.visits
  · intro x hx
    rcases List.mem_append.mp hx with hx | hx
    · rw [← haccounts.erased, ← haccounts'.erased]
      exact h.env x hx
    · -- The latest definition decides, and the logs are the same.
      obtain ⟨v, hv⟩ := Option.ne_none_iff_exists'.mp (Log.latest?_eq_none_iff.not_left.mpr hx)
      rw [haccounts.replayed, haccounts'.replayed, Environment.get?_defineAll,
        Environment.get?_defineAll, ← h.definitions, hv]
      rfl

/-! ## Runs in a new scope -/

theorem Program.outer?_eval_enclosed (limit : Nat) (p : Program) (env : Environment) :
    (p.eval limit env.enclosed).env.outer? = some env := by
  have hextends := (admits_extends (Stmt.targetsOfAll p.statements)).sequence limit p.statements
    (List.Subset.refl _) 0 env.enclosed .null
  have henclosing : (p.eval limit env.enclosed).env.enclosing = env.innermost :: env.enclosing :=
    hextends.enclosing
  rw [Environment.outer?, henclosing]

theorem Program.eval_enclosed (limit : Nat) (p : Program) (env : Environment) :
    (p.eval limit env.enclosed).value = (p.eval limit env).value ∧
      ∀ x, (p.eval limit env.enclosed).env.get? x = (p.eval limit env).env.get? x := by
  rw [← (Accounts.program limit p env).erased, ← (Accounts.program limit p env.enclosed).erased]
  -- The environments agree on every name, whether the program refers to it or not.
  have halike (x : String) :=
    Alike.program limit p (List.subset_append_left _ [x]) (env.agreeOn_enclosed _)
  refine ⟨(halike "").value, ?_⟩
  intro x
  exact (halike x).env x (List.mem_append_right _ (List.mem_singleton_self x))

/-- A text cannot tell whether it is run in a new scope, and all that it defines is in
that scope. -/
theorem Run.ofSource_enclosed (limit : Nat) (source : String) (env : Environment) :
    (ofSource limit source env.enclosed).result = (ofSource limit source env).result ∧
      (∀ x, (ofSource limit source env.enclosed).env.get? x =
        (ofSource limit source env).env.get? x) ∧
      (ofSource limit source env.enclosed).env.outer? = some env := by
  cases hparse : Program.parse source with
  | error errors =>
      obtain ⟨hresult, henv⟩ := ofSource_of_parse_eq_error hparse limit env
      obtain ⟨hresult', henv'⟩ := ofSource_of_parse_eq_error hparse limit env.enclosed
      rw [hresult, hresult', henv, henv']
      exact ⟨rfl, fun _ => rfl, rfl⟩
  | ok p =>
      obtain ⟨hresult, henv⟩ := ofSource_of_parse_eq_ok hparse limit env
      obtain ⟨hresult', henv'⟩ := ofSource_of_parse_eq_ok hparse limit env.enclosed
      obtain ⟨hvalue, hget⟩ := p.eval_enclosed limit env
      rw [hresult, hresult', henv, henv', hvalue]
      exact ⟨rfl, hget, p.outer?_eval_enclosed limit env⟩

/-- Environments that give the same to all names that a piece of a program refers to lead
to the same course of its evaluation.  A new scope around a run is a special case: the
result is the same, and the environment outside the new scope stays as it was. -/
theorem eval_depends_on_lookups_only (limit depth : Nat) (env env' : Environment) :
    (∀ e : Expr, env.AgreeOn e.references env' →
      SameCourse e.references env env' (e.evalLogging limit depth env)
        (e.evalLogging limit depth env') (e.eval limit depth env) (e.eval limit depth env')) ∧
    (∀ s : Stmt, env.AgreeOn s.references env' →
      SameCourse s.references env env' (s.evalLogging limit depth env)
        (s.evalLogging limit depth env') (s.eval limit depth env) (s.eval limit depth env')) ∧
    (∀ b : Block, env.AgreeOn (Stmt.referencesOfAll b) env' →
      SameCourse (Stmt.referencesOfAll b) env env' (Block.evalLogging limit b depth env)
        (Block.evalLogging limit b depth env') (Block.eval limit b depth env)
        (Block.eval limit b depth env')) ∧
    (∀ p : Program, env.AgreeOn (Stmt.referencesOfAll p.statements) env' →
      SameCourse (Stmt.referencesOfAll p.statements) env env' (p.evalLogging limit env)
        (p.evalLogging limit env') (p.eval limit env) (p.eval limit env')) ∧
    (∀ source : String,
      (Run.ofSource limit source env.enclosed).result = (Run.ofSource limit source env).result ∧
      (∀ x, (Run.ofSource limit source env.enclosed).env.get? x =
        (Run.ofSource limit source env).env.get? x) ∧
      (Run.ofSource limit source env.enclosed).env.outer? = some env) := by
  refine ⟨?_, ?_, ?_, ?_, ?_⟩
  · intro e henv
    exact (Alike.expr limit e (List.Subset.refl _) depth henv).sameCourse
      (.expr limit e depth env) (.expr limit e depth env')
  · intro s henv
    exact (Alike.stmt limit s (List.Subset.refl _) depth henv).sameCourse
      (.stmt limit s depth env) (.stmt limit s depth env')
  · intro b henv
    have hbody := Alike.sequence limit b (List.Subset.refl _) (depth + 1) henv .null
    exact (Alike.enter henv hbody).sameCourse
      (.block limit b depth env) (.block limit b depth env')
  · intro p henv
    exact (Alike.program limit p (List.Subset.refl _) henv).sameCourse
      (.program limit p env) (.program limit p env')
  · intro source
    exact Run.ofSource_enclosed limit source env

/-- One environment has two scopes and the other one has a single scope with another name
in it.  A definition shadows a name in the first and replaces its value in the second. -/
theorem eval_depends_on_lookups_only_shadowing :
    ∃ (env env' : Environment) (p : Program),
      env = (Environment.empty.set "x" (.bool true)).enclosed.set "y" .null ∧
      env' = ((Environment.empty.set "w" .null).set "y" .null).set "x" (.bool true) ∧
      p = ⟨[.bind "y" (.name "x"), .expr (.ifThen (.name "y")
        [.bind "x" (.unary .not (.name "y")), .ret (.name "x")]), .bind "z" (.name "y")]⟩ ∧
      env.AgreeOn (Stmt.referencesOfAll p.statements) env' ∧
      (p.evalLogging 9 env').definitions = [("y", .bool true), ("x", .bool false)] ∧
      SameCourse (Stmt.referencesOfAll p.statements) env env' (p.evalLogging 9 env)
        (p.evalLogging 9 env') (p.eval 9 env) (p.eval 9 env') := by
  have hagree : Environment.AgreeOn ["x", "y", "y", "x", "y"]
      ((Environment.empty.set "x" (.bool true)).enclosed.set "y" .null)
      (((Environment.empty.set "w" .null).set "y" .null).set "x" (.bool true)) := by
    unfold Environment.AgreeOn
    decide
  refine ⟨_, _, _, rfl, rfl, rfl, hagree, rfl, ?_⟩
  exact (eval_depends_on_lookups_only 9 0 _ _).2.2.2.1 _ hagree

end LetLang
