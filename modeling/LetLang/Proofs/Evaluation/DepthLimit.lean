import LetLang.Proofs.Evaluation.Semantics
import Mathlib.Control.Monad.Writer

/-!
# The limit on depth

Without a limit, every expression and every block may be entered, and the levels
at which this happens are a property of the program and its environment.  A
limit stops an evaluation if one of these levels is beyond it, and otherwise
cannot be noticed.
-/

namespace LetLang

/-! ## Evaluation without a limit -/

/-- Computations that also note the levels that they enter. -/
abbrev Recording := ExceptT Interrupt (StateT Environment (Writer (List Nat)))

/-- How a recording computation ended, the environment that it left and the
levels that it entered, in order. -/
structure Record (α : Type) where
  result : Except Interrupt α
  env : Environment
  entered : List Nat

namespace Recording

variable {α β : Type} {env env' : Environment} {levels : List Nat}

/-- Runs a recording computation. -/
def record (c : Recording α) (env : Environment) : Record α :=
  let run := (c.run.run env).run.run
  ⟨run.1.1, run.1.2, run.2⟩

/-- Goes one level deeper, at every depth, and notes the level. -/
def enterNoting (depth : Nat) : Recording Nat := do
  (tell [depth + 1] : StateT Environment (Writer (List Nat)) PUnit)
  pure (depth + 1)

theorem run_writer_bind (w : Writer (List Nat) α) (next : α → Writer (List Nat) β) :
    (w >>= next).run.run =
      ((next w.run.run.1).run.run.1, w.run.run.2 ++ (next w.run.run.1).run.run.2) := rfl

theorem record_bind_of_ok
    {c : Recording α} {a : α} (h : c.record env = ⟨.ok a, env', levels⟩)
    (next : α → Recording β) :
    (c >>= next).record env =
      ⟨((next a).record env').result, ((next a).record env').env,
        levels ++ ((next a).record env').entered⟩ := by
  simp only [record, Record.mk.injEq] at h
  obtain ⟨hresult, henv, hentered⟩ := h
  simp only [record, ExceptT.run_bind, StateT.run_bind, run_writer_bind, hresult, henv, hentered]

theorem record_bind_of_error
    {c : Recording α} {i : Interrupt} (h : c.record env = ⟨.error i, env', levels⟩)
    (next : α → Recording β) :
    (c >>= next).record env = ⟨.error i, env', levels⟩ := by
  simp only [record, Record.mk.injEq] at h
  obtain ⟨hresult, henv, hentered⟩ := h
  simp only [record, ExceptT.run_bind, StateT.run_bind, run_writer_bind, hresult, henv, hentered]
  exact congrArg _ (List.append_nil levels)

theorem record_enterNoting_bind (depth : Nat) (next : Nat → Recording α) :
    (enterNoting depth >>= next).record env =
      ⟨((next (depth + 1)).record env).result, ((next (depth + 1)).record env).env,
        (depth + 1) :: ((next (depth + 1)).record env).entered⟩ := rfl

theorem record_get_bind (next : Environment → Recording α) :
    (get >>= next).record env = (next env).record env := rfl

theorem run_tryCatch (c : Recording α) (handle : Interrupt → Recording α) :
    (tryCatch c handle).run = c.run >>= fun
      | .ok a => pure (.ok a)
      | .error i => (handle i).run := by
  simp only [tryCatch, tryCatchThe, MonadExceptOf.tryCatch, ExceptT.tryCatch, ExceptT.run_mk]
  congr 1
  funext r
  cases r <;> rfl

theorem record_program
    {enter : Nat → Recording Nat} {p : Program} {o : Outcome}
    (h : (Stmt.denoteAll enter p.statements 0).record env = ⟨o, env', levels⟩) :
    (p.denote enter).record env = ⟨o.caught, env', levels⟩ := by
  rw [Program.denote]
  simp only [record, Record.mk.injEq] at h
  obtain ⟨hresult, henv, hentered⟩ := h
  simp only [record, run_tryCatch, StateT.run_bind, run_writer_bind, hresult, henv, hentered]
  rcases o with (fault | v) | v
  all_goals exact congrArg _ (List.append_nil levels)

end Recording

/-! ## Evaluation with a limit -/

namespace Outcome

/-- Whether the fault, if there is one, is about the program alone. -/
def isOrdinary : Outcome → Bool
  | .error (.err fault) => fault.isOrdinary
  | .ok _ | .error (.ret _) => true

theorem isOrdinary_caught {o : Outcome} (ho : o.isOrdinary = true) :
    o.caught.isOrdinary = true := by
  rcases o with (fault | v) | v
  · exact ho
  · rfl
  · rfl

end Outcome

open Recording

theorem exists_lt_or_forall_le (limit : Nat) (levels : List Nat) :
    (∃ d ∈ levels, limit < d) ∨ ∀ d ∈ levels, d ≤ limit := by
  by_cases h : ∃ d ∈ levels, limit < d
  · exact .inl h
  · refine .inr fun d hd => ?_
    exact Nat.not_lt.mp fun hlimit => h ⟨d, hd, hlimit⟩

/-- An evaluation with a limit compared with the record of one that has none.  If
a level beyond the limit was entered, the limit is reported, and otherwise it is
not noticed.  The record has no signal in place of a value, and no fault in it is
about the depth. -/
structure LimitedBy (limit : Nat) (e : Evaluation) (r : Record Value) : Prop where
  beyond : (∃ d ∈ r.entered, limit < d) → e.value = .err (.tooDeep limit)
  within : (∀ d ∈ r.entered, d ≤ limit) → e.value = Outcome.encode r.result ∧ e.env = r.env
  result_isPlain : Outcome.isPlain r.result = true
  result_isOrdinary : Outcome.isOrdinary r.result = true
  env_isPlain : r.env.isPlain = true

namespace LimitedBy

variable {limit : Nat} {start : Environment} {e : Evaluation} {c : Recording Value}

theorem atOnce
    {reached : Environment} (o : Outcome) (hplain : o.isPlain = true)
    (hordinary : o.isOrdinary = true) (hreached : reached.isPlain = true) :
    LimitedBy limit (Evaluation.done o.encode reached) ⟨o, reached, []⟩ := by
  refine ⟨?_, fun _ => ⟨rfl, rfl⟩, hplain, hordinary, hreached⟩
  rintro ⟨d, hd, -⟩
  cases hd

theorem enter
    {depth : Nat} {inside : Nat → Evaluation} {next : Nat → Recording Value}
    (h : LimitedBy limit (inside (depth + 1)) ((next (depth + 1)).record start)) :
    LimitedBy limit (Evaluation.enter limit depth start inside)
      ((enterNoting depth >>= next).record start) := by
  obtain ⟨hbeyond, hwithin, hplain, hordinary, henv⟩ := h
  rw [record_enterNoting_bind]
  refine ⟨?_, ?_, hplain, hordinary, henv⟩
  · rintro ⟨d, hd, hlimit⟩
    by_cases hdepth : depth < limit
    · rw [Evaluation.enter, if_pos hdepth]
      rcases List.mem_cons.mp hd with rfl | hd
      · omega
      · exact hbeyond ⟨d, hd, hlimit⟩
    · rw [Evaluation.enter, if_neg hdepth]
      rfl
  · intro hall
    have hdepth : depth < limit := hall (depth + 1) List.mem_cons_self
    rw [Evaluation.enter, if_pos hdepth]
    exact hwithin fun d hd => hall d (List.mem_cons_of_mem _ hd)

theorem andThen
    {after : Value → Environment → Evaluation} {next : Value → Recording Value}
    (h : LimitedBy limit e (c.record start))
    (hnext : ∀ v env, env.isPlain = true → v.isPlain = true →
      LimitedBy limit (after v env) ((next v).record env)) :
    LimitedBy limit (e.andThen after) ((c >>= next).record start) := by
  rcases hc : c.record start with ⟨i | v, reached, levels⟩
  · rw [hc] at h
    have hsignal : e.value.isSignal = true := by
      rcases exists_lt_or_forall_le limit levels with hlevels | hlevels
      · rw [h.beyond hlevels]
        rfl
      · rw [(h.within hlevels).1]
        exact Outcome.isSignal_encode_error i
    rw [Evaluation.andThen_of_isSignal hsignal, record_bind_of_error hc]
    exact h
  · rw [hc] at h
    obtain ⟨hbeyond, hwithin, hplain, hordinary, henv⟩ :=
      hnext v reached h.env_isPlain h.result_isPlain
    rw [record_bind_of_ok hc]
    rcases exists_lt_or_forall_le limit levels with hlevels | hlevels
    · have hvalue : e.value = .err (.tooDeep limit) := h.beyond hlevels
      rw [Evaluation.andThen_of_isSignal (by rw [hvalue]; rfl)]
      refine ⟨fun _ => hvalue, fun hall => ?_, hplain, hordinary, henv⟩
      obtain ⟨d, hd, hlimit⟩ := hlevels
      exact absurd (hall d (List.mem_append_left _ hd)) (Nat.not_le.mpr hlimit)
    · obtain ⟨hvalue, hreached⟩ := h.within hlevels
      have hsignal : e.value.isSignal = false := by
        rw [hvalue]
        exact Outcome.isSignal_encode_ok h.result_isPlain
      rw [Evaluation.andThen_of_not_isSignal hsignal, hvalue, hreached]
      refine ⟨?_, fun hall => ?_, hplain, hordinary, henv⟩
      · rintro ⟨d, hd, hlimit⟩
        rcases List.mem_append.mp hd with hd | hd
        · exact absurd (hlevels d hd) (Nat.not_le.mpr hlimit)
        · exact hbeyond ⟨d, hd, hlimit⟩
      · exact hwithin fun d hd => hall d (List.mem_append_right _ hd)

theorem program
    {p : Program}
    (h : LimitedBy limit (Stmt.evalAll limit p.statements 0 start .null)
      ((Stmt.denoteAll enterNoting p.statements 0).record start)) :
    LimitedBy limit (p.eval limit start) ((p.denote enterNoting).record start) := by
  rcases hc : (Stmt.denoteAll enterNoting p.statements 0).record start with ⟨o, reached, levels⟩
  rw [hc] at h
  rw [record_program hc]
  obtain ⟨hbeyond, hwithin, hplain, hordinary, henv⟩ := h
  refine ⟨?_, ?_, Outcome.isPlain_caught hplain, Outcome.isOrdinary_caught hordinary, henv⟩
  · intro hlevels
    rw [Program.eval, hbeyond hlevels]
    rfl
  · intro hall
    obtain ⟨hvalue, henv'⟩ := hwithin hall
    refine ⟨?_, henv'⟩
    rw [Program.eval, hvalue]
    exact Outcome.unwrapReturn_encode hplain

end LimitedBy

/-- The evaluator takes the steps of the unlimited semantics up to the first one
that the limit forbids. -/
theorem simulation_limitedBy (limit : Nat) :
    Simulation limit enterNoting fun start e c => LimitedBy limit e (c.record start) where
  done {_ v} henv hv := .atOnce (.ok v) hv rfl henv
  fault {_ fault} henv hfault := .atOnce (.error (.err fault)) rfl hfault henv
  ret {_ v} henv hv := .atOnce (.error (.ret v)) hv rfl henv
  set {_ v} x henv hv := .atOnce (.ok v) hv rfl (Environment.isPlain_set henv hv x)
  get h := h
  enter _ h := h.enter
  andThen := LimitedBy.andThen
  visiting _ _ h := ⟨h.beyond, h.within, h.result_isPlain, h.result_isOrdinary, h.env_isPlain⟩

/-! ## The report of the limit -/

/-- A value is the error that reports the limit. -/
def Value.ReportsLimit (limit : Nat) (v : Value) : Prop :=
  ∃ fault, v = .err fault ∧
    fault.message = "maximum evaluation depth exceeded: " ++ limit.repr

theorem Fault.head?_message_ne {fault : Fault} (h : fault.isOrdinary = true) :
    fault.message.toList.head? ≠ some 'm' := by
  cases fault with
  | tooDeep n => cases h
  | stated text => cases h
  | _ =>
      unfold Fault.message
      simp only [String.toList_append]
      exact nofun

/-- No fault of a program reads like the report of a limit. -/
theorem Fault.message_ne_of_isOrdinary
    {fault : Fault} (h : fault.isOrdinary = true) (limit : Nat) :
    fault.message ≠ "maximum evaluation depth exceeded: " ++ limit.repr := by
  intro heq
  apply Fault.head?_message_ne h
  rw [heq, String.toList_append]
  rfl

namespace LimitedBy

variable {limit : Nat} {e : Evaluation} {r : Record Value}

theorem not_reportsLimit_of_within
    (h : LimitedBy limit e r) (hall : ∀ d ∈ r.entered, d ≤ limit) :
    ¬e.value.ReportsLimit limit := by
  rintro ⟨fault, hvalue, hmessage⟩
  rw [(h.within hall).1] at hvalue
  have hplain := h.result_isPlain
  have hordinary := h.result_isOrdinary
  rcases hr : r.result with (stopped | v) | v
  · rw [hr] at hvalue hordinary
    cases hvalue
    exact Fault.message_ne_of_isOrdinary hordinary limit hmessage
  · rw [hr] at hvalue
    cases hvalue
  · rw [hr] at hvalue hplain
    cases hvalue
    cases hplain

theorem reportsLimit_iff (h : LimitedBy limit e r) :
    e.value.ReportsLimit limit ↔ ∃ d ∈ r.entered, limit < d := by
  constructor
  · intro hreport
    rcases exists_lt_or_forall_le limit r.entered with hlevels | hlevels
    · exact hlevels
    · exact absurd hreport (h.not_reportsLimit_of_within hlevels)
  · intro hlevels
    exact ⟨_, h.beyond hlevels, rfl⟩

end LimitedBy

/-! ## The height of programs -/

mutual

/-- The number of levels in an expression. -/
def Expr.height : Expr → Nat
  | .name _ | .int _ | .bool _ => 1
  | .unary _ e => e.height + 1
  | .binary _ l r => max l.height r.height + 1
  | .ifThen c t => max c.height (Stmt.heightOfAll t + 1) + 1
  | .ifElse c t e => max c.height (max (Stmt.heightOfAll t + 1) (Stmt.heightOfAll e + 1)) + 1

/-- The number of levels in a statement, which is none itself. -/
def Stmt.height : Stmt → Nat
  | .bind _ e | .ret e | .expr e => e.height
  | .block b => Stmt.heightOfAll b + 1

/-- The number of levels in statements in a row. -/
def Stmt.heightOfAll : List Stmt → Nat
  | [] => 0
  | s :: b => max s.height (Stmt.heightOfAll b)

end

/-- The number of levels in a program. -/
def Program.height (p : Program) : Nat :=
  Stmt.heightOfAll p.statements

/-- A computation enters no level beyond the given one, from any environment. -/
def EntersUpTo {α : Type} (level : Nat) (c : Recording α) : Prop :=
  ∀ env, ∀ d ∈ (c.record env).entered, d ≤ level

namespace EntersUpTo

variable {α β : Type} {level : Nat}

theorem of_entered_eq_nil
    {c : Recording α} (h : ∀ env, (c.record env).entered = []) : EntersUpTo level c := by
  intro env d hd
  rw [h env] at hd
  cases hd

theorem orThrow (v : Value) : EntersUpTo level (v.orThrow : Recording Value) := by
  refine of_entered_eq_nil fun env => ?_
  cases v <;> rfl

theorem bind
    {c : Recording α} {next : α → Recording β} (hc : EntersUpTo level c)
    (hnext : ∀ a, EntersUpTo level (next a)) : EntersUpTo level (c >>= next) := by
  intro env d hd
  have hc := hc env
  rcases hr : c.record env with ⟨i | a, reached, levels⟩
  · rw [record_bind_of_error hr] at hd
    rw [hr] at hc
    exact hc d hd
  · rw [record_bind_of_ok hr, List.mem_append] at hd
    rw [hr] at hc
    rcases hd with hd | hd
    · exact hc d hd
    · exact hnext a reached d hd

theorem enter
    {depth : Nat} {next : Nat → Recording α} (hdepth : depth < level)
    (hnext : EntersUpTo level (next (depth + 1))) :
    EntersUpTo level (enterNoting depth >>= next) := by
  intro env d hd
  rw [record_enterNoting_bind, List.mem_cons] at hd
  rcases hd with rfl | hd
  · exact hdepth
  · exact hnext env d hd

mutual

theorem expr :
    (e : Expr) → {depth : Nat} → depth + e.height ≤ level →
      EntersUpTo level (e.denote enterNoting depth)
  | .name x, depth, h => by
      rw [Expr.height] at h
      rw [Expr.denote]
      refine .enter h (.of_entered_eq_nil fun env => ?_)
      rw [record_get_bind]
      cases env.get? x <;> rfl
  | .int _, depth, h | .bool _, depth, h => by
      rw [Expr.height] at h
      rw [Expr.denote]
      exact .enter h (.of_entered_eq_nil fun _ => rfl)
  | .unary op e, depth, h => by
      rw [Expr.height] at h
      rw [Expr.denote]
      exact .enter (by omega) (.bind (expr e (by omega)) fun v => .orThrow _)
  | .binary op l r, depth, h => by
      rw [Expr.height] at h
      rw [Expr.denote]
      refine .enter (by omega) (.bind (expr l (by omega)) fun a => ?_)
      exact .bind (expr r (by omega)) fun b => .orThrow _
  | .ifThen c t, depth, h => by
      rw [Expr.height] at h
      rw [Expr.denote]
      refine .enter (by omega) (.bind (expr c (by omega)) fun v => ?_)
      split
      · exact .enter (by omega) (sequence t (by omega))
      · exact .of_entered_eq_nil fun _ => rfl
  | .ifElse c t e, depth, h => by
      rw [Expr.height] at h
      rw [Expr.denote]
      refine .enter (by omega) (.bind (expr c (by omega)) fun v => ?_)
      split
      · exact .enter (by omega) (sequence t (by omega))
      · exact .enter (by omega) (sequence e (by omega))

theorem stmt :
    (s : Stmt) → {depth : Nat} → depth + s.height ≤ level →
      EntersUpTo level (s.denote enterNoting depth)
  | .bind x e, depth, h => by
      rw [Stmt.height] at h
      rw [Stmt.denote]
      exact .bind (expr e h) fun v => .of_entered_eq_nil fun _ => rfl
  | .ret e, depth, h => by
      rw [Stmt.height] at h
      rw [Stmt.denote]
      exact .bind (expr e h) fun v => .of_entered_eq_nil fun _ => rfl
  | .expr e, depth, h => by
      rw [Stmt.height] at h
      rw [Stmt.denote]
      exact expr e h
  | .block b, depth, h => by
      rw [Stmt.height] at h
      rw [Stmt.denote]
      exact .enter (by omega) (sequence b (by omega))

theorem sequence :
    (b : List Stmt) → {depth : Nat} → depth + Stmt.heightOfAll b ≤ level →
      EntersUpTo level (Stmt.denoteAll enterNoting b depth)
  | [], depth, _ => by
      rw [Stmt.denoteAll]
      exact .of_entered_eq_nil fun _ => rfl
  | [s], depth, h => by
      rw [Stmt.heightOfAll] at h
      rw [Stmt.denoteAll]
      exact stmt s (by omega)
  | s :: next :: rest, depth, h => by
      rw [Stmt.heightOfAll] at h
      rw [Stmt.denoteAll]
      exact .bind (stmt s (by omega)) fun _ => sequence (next :: rest) (by omega)

end

end EntersUpTo

/-- A program enters no level beyond its height. -/
theorem Program.entered_le_height (p : Program) :
    EntersUpTo p.height (p.denote enterNoting) := by
  intro env d hd
  rcases hr : (Stmt.denoteAll enterNoting p.statements 0).record env with ⟨o, reached, levels⟩
  rw [record_program hr] at hd
  have hsequence : EntersUpTo p.height (Stmt.denoteAll enterNoting p.statements 0) :=
    .sequence p.statements (Nat.le_of_eq (Nat.zero_add _))
  have hlevels := hsequence env
  rw [hr] at hlevels
  exact hlevels d hd

/-- A limit stops exactly the programs that, without a limit, enter a level
beyond it.  For all others neither the value nor the environment shows the
limit, nor any higher limit, and all programs that are no higher than the limit
are among them. -/
theorem eval_limit_exact
    (p : Program) (env : Environment) (henv : env.isPlain = true) (limit : Nat) :
    ((p.eval limit env).value.ReportsLimit limit ↔
      ∃ d ∈ ((p.denote enterNoting).record env).entered, limit < d) ∧
    (¬(p.eval limit env).value.ReportsLimit limit →
      (p.eval limit env).value = Outcome.encode ((p.denote enterNoting).record env).result ∧
      (p.eval limit env).env = ((p.denote enterNoting).record env).env ∧
      ∀ higher, limit ≤ higher →
        (p.eval higher env).value = (p.eval limit env).value ∧
        (p.eval higher env).env = (p.eval limit env).env) ∧
    (p.height ≤ limit → ¬(p.eval limit env).value.ReportsLimit limit) := by
  have hlimited (bound : Nat) :
      LimitedBy bound (p.eval bound env) ((p.denote enterNoting).record env) :=
    .program ((simulation_limitedBy bound).sequence p.statements 0 env henv)
  refine ⟨(hlimited limit).reportsLimit_iff, ?_, ?_⟩
  · intro hreport
    rw [(hlimited limit).reportsLimit_iff] at hreport
    have hall := (exists_lt_or_forall_le _ _).resolve_left hreport
    obtain ⟨hvalue, hreached⟩ := (hlimited limit).within hall
    refine ⟨hvalue, hreached, fun higher hle => ?_⟩
    obtain ⟨hvalue', hreached'⟩ :=
      (hlimited higher).within fun d hd => Nat.le_trans (hall d hd) hle
    exact ⟨hvalue'.trans hvalue.symm, hreached'.trans hreached.symm⟩
  · intro hheight
    refine (hlimited limit).not_reportsLimit_of_within fun d hd => ?_
    exact Nat.le_trans (p.entered_le_height env d hd) hheight

/-- A conditional whose block is skipped enters two of its three levels. -/
theorem eval_limit_exact_conditional :
    ∃ env : Environment, ∃ p : Program,
      env = Environment.empty.set "x" (.bool false) ∧
      p = ⟨[.expr (.ifThen (.name "x") [.expr (.name "y")])]⟩ ∧
      env.isPlain = true ∧ p.height = 3 ∧
      ((p.denote enterNoting).record env).entered = [1, 2] ∧
      (p.eval 1 env).value.ReportsLimit 1 ∧ ¬(p.eval 2 env).value.ReportsLimit 2 := by
  refine ⟨_, _, rfl, rfl, by decide, by decide, rfl, ?_, ?_⟩
  · exact (eval_limit_exact _ _ (by decide) 1).1.mpr ⟨2, by decide, by decide⟩
  · rw [(eval_limit_exact _ _ (by decide) 2).1]
    decide

end LetLang
