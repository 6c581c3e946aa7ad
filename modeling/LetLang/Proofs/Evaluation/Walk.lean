import LetLang.Proofs.Evaluation.Counter
import LetLang.Proofs.Evaluation.Plain
import LetLang.Run
import Mathlib.Data.Fintype.EquivFin
import Mathlib.Data.List.NodupEquivFin

/-!
# The trace of an evaluation as a walk

The expressions of a program, each with everything that it stands in, are listed
in source order, an expression in front of its parts.  The trace of an evaluation
is a walk along this list: branches that are not taken and whatever comes after a
signal are left out, but no expression is entered twice, or before one that is
listed ahead of it, and the trace names its form and its depth in the program.
Where nothing can be left out, a run that succeeds walks along the whole list.
-/

namespace LetLang

open Evaluation

/-! ## The expressions of a program -/

/-- What the parts of a program stand in.  Each of these is one level. -/
inductive Enclosing where
  | expr (e : Expr)
  | block (b : Block)

/-- An expression at its place in a program. -/
structure Node where
  /-- The expression. -/
  expr : Expr
  /-- The expressions and blocks around it, from the inside out. -/
  ancestors : List Enclosing

/-- What the trace reports when a node is entered: the form of the expression, and
a depth of one more than there are expressions and blocks around it. -/
def Node.visit (n : Node) : Visit :=
  ⟨n.expr.kind, n.ancestors.length + 1⟩

mutual

/-- The nodes of an expression, itself first and then its parts in source order. -/
def Expr.preorder : Expr → (ancestors : List Enclosing) → List Node
  | .name x, ancestors => [⟨.name x, ancestors⟩]
  | .int n, ancestors => [⟨.int n, ancestors⟩]
  | .bool b, ancestors => [⟨.bool b, ancestors⟩]
  | .unary op e, ancestors =>
      ⟨.unary op e, ancestors⟩ :: e.preorder (.expr (.unary op e) :: ancestors)
  | .binary op l r, ancestors =>
      ⟨.binary op l r, ancestors⟩ ::
        (l.preorder (.expr (.binary op l r) :: ancestors) ++
          r.preorder (.expr (.binary op l r) :: ancestors))
  | .ifThen c t, ancestors =>
      ⟨.ifThen c t, ancestors⟩ ::
        (c.preorder (.expr (.ifThen c t) :: ancestors) ++
          Stmt.preorderAll t (.block t :: .expr (.ifThen c t) :: ancestors))
  | .ifElse c t e, ancestors =>
      ⟨.ifElse c t e, ancestors⟩ ::
        (c.preorder (.expr (.ifElse c t e) :: ancestors) ++
          (Stmt.preorderAll t (.block t :: .expr (.ifElse c t e) :: ancestors) ++
            Stmt.preorderAll e (.block e :: .expr (.ifElse c t e) :: ancestors)))

/-- The nodes of a statement. -/
def Stmt.preorder : Stmt → (ancestors : List Enclosing) → List Node
  | .bind _ e, ancestors | .ret e, ancestors | .expr e, ancestors => e.preorder ancestors
  | .block b, ancestors => Stmt.preorderAll b (.block b :: ancestors)

/-- The nodes of statements, one after the other. -/
def Stmt.preorderAll : List Stmt → (ancestors : List Enclosing) → List Node
  | [], _ => []
  | s :: rest, ancestors => s.preorder ancestors ++ Stmt.preorderAll rest ancestors

end

/-- The nodes of a program. -/
def Program.preorder (p : Program) : List Node :=
  Stmt.preorderAll p.statements []

/-! ## Every evaluation is a walk -/

/-- The visits of an evaluation are those of some of the nodes, in their order, and
none of them is beyond the limit. -/
structure Evaluation.Walks (limit : Nat) (nodes : List Node) (e : Evaluation) : Prop where
  visits_sublist : e.visits.Sublist (nodes.map Node.visit)
  depth_le : ∀ v ∈ e.visits, v.depth ≤ limit

namespace Evaluation.Walks

variable {limit : Nat} {nodes rest : List Node} {ancestors : List Enclosing}
  {env : Environment} {e : Evaluation}

theorem done (nodes : List Node) (v : Value) (env : Environment) :
    Walks limit nodes (done v env) :=
  ⟨List.nil_sublist _, List.forall_mem_nil _⟩

/-- A walk is still one when there are more nodes to pass over. -/
theorem mono (h : Walks limit nodes e) {nodes' : List Node} (hnodes : nodes.Sublist nodes') :
    Walks limit nodes' e :=
  ⟨h.visits_sublist.trans (hnodes.map Node.visit), h.depth_le⟩

/-- A signal ends the walk, and otherwise it goes on along further nodes. -/
theorem andThen
    {next : Value → Environment → Evaluation} (h : Walks limit nodes e)
    (hnext : ∀ v env, Walks limit rest (next v env)) :
    Walks limit (nodes ++ rest) (e.andThen next) := by
  by_cases hsignal : e.value.isSignal = true
  · rw [andThen_of_isSignal hsignal]
    exact h.mono (List.sublist_append_left nodes rest)
  · rw [andThen_of_not_isSignal (Bool.eq_false_iff.mpr hsignal)]
    have hrest := hnext e.value e.env
    constructor
    · rw [List.map_append]
      exact h.visits_sublist.append hrest.visits_sublist
    · intro v hv
      rcases List.mem_append.mp hv with hv | hv
      · exact h.depth_le v hv
      · exact hrest.depth_le v hv

/-- What is done with the value of an evaluation without another one adds nothing. -/
theorem andThen_done
    {value : Value → Value} {after : Value → Environment → Environment}
    (h : Walks limit nodes e) :
    Walks limit nodes (e.andThen fun v env => .done (value v) (after v env)) := by
  rw [← List.append_nil nodes]
  exact h.andThen fun v env => done [] (value v) (after v env)

theorem level
    {depth : Nat} {inside : Nat → Evaluation} (h : Walks limit nodes (inside (depth + 1))) :
    Walks limit nodes (enter limit depth env inside) := by
  by_cases hlimit : depth < limit
  · rwa [enter, if_pos hlimit]
  · rw [enter, if_neg hlimit]
    exact done nodes _ env

/-- The trace shows the depth that the node has in the program.  A node is only
entered when the limit allows its depth. -/
theorem node
    (x : Expr) {inside : Nat → Evaluation}
    (h : Walks limit nodes (inside (ancestors.length + 1))) :
    Walks limit (⟨x, ancestors⟩ :: nodes)
      (enter limit ancestors.length env fun depth => visiting x.kind depth (inside depth)) := by
  by_cases hlimit : ancestors.length < limit
  · rw [enter, if_pos hlimit]
    constructor
    · exact h.visits_sublist.cons_cons _
    · exact List.forall_mem_cons.mpr ⟨hlimit, h.depth_le⟩
  · rw [enter, if_neg hlimit]
    exact done _ _ env

-- The depth that is handed down is the number of ancestors, at every place of the tree.
mutual

theorem expr (limit : Nat) :
    (x : Expr) → (ancestors : List Enclosing) → (env : Environment) →
      Walks limit (x.preorder ancestors) (x.eval limit ancestors.length env)
  | .name x, ancestors, env => by
      rw [Expr.preorder, Expr.eval]
      exact node (.name x) (done [] _ env)
  | .int n, ancestors, env => by
      rw [Expr.preorder, Expr.eval]
      exact node (.int n) (done [] _ env)
  | .bool b, ancestors, env => by
      rw [Expr.preorder, Expr.eval]
      exact node (.bool b) (done [] _ env)
  | .unary op x, ancestors, env => by
      rw [Expr.preorder, Expr.eval]
      apply node (.unary op x)
      exact (expr limit x (_ :: ancestors) env).andThen_done
  | .binary op l r, ancestors, env => by
      rw [Expr.preorder, Expr.eval]
      apply node (.binary op l r)
      apply (expr limit l (_ :: ancestors) env).andThen
      intro a env
      exact (expr limit r (_ :: ancestors) env).andThen_done
  | .ifThen c t, ancestors, env => by
      rw [Expr.preorder, Expr.eval]
      apply node (.ifThen c t)
      apply (expr limit c (_ :: ancestors) env).andThen
      intro v env
      split
      · exact level (sequence limit t (_ :: _ :: ancestors) env .null)
      · exact done _ .null env
  | .ifElse c t e, ancestors, env => by
      rw [Expr.preorder, Expr.eval]
      apply node (.ifElse c t e)
      apply (expr limit c (_ :: ancestors) env).andThen
      intro v env
      -- Whichever branch is taken, the nodes of the other one are passed over.
      split
      · apply Walks.mono _ (List.sublist_append_left _ _)
        exact level (sequence limit t (_ :: _ :: ancestors) env .null)
      · apply Walks.mono _ (List.sublist_append_right _ _)
        exact level (sequence limit e (_ :: _ :: ancestors) env .null)

theorem stmt (limit : Nat) :
    (s : Stmt) → (ancestors : List Enclosing) → (env : Environment) →
      Walks limit (s.preorder ancestors) (s.eval limit ancestors.length env)
  | .bind x e, ancestors, env => by
      rw [Stmt.preorder, Stmt.eval]
      exact (expr limit e ancestors env).andThen_done
  | .ret e, ancestors, env => by
      rw [Stmt.preorder, Stmt.eval]
      exact (expr limit e ancestors env).andThen_done
  | .expr e, ancestors, env => by
      rw [Stmt.preorder, Stmt.eval]
      exact expr limit e ancestors env
  | .block b, ancestors, env => by
      rw [Stmt.preorder, Stmt.eval]
      exact level (sequence limit b (_ :: ancestors) env .null)

theorem sequence (limit : Nat) :
    (b : List Stmt) → (ancestors : List Enclosing) → (env : Environment) → (last : Value) →
      Walks limit (Stmt.preorderAll b ancestors) (Stmt.evalAll limit b ancestors.length env last)
  | [], ancestors, env, last => by
      rw [Stmt.preorderAll, Stmt.evalAll]
      exact done [] last env
  | s :: rest, ancestors, env, _ => by
      rw [Stmt.preorderAll, Stmt.evalAll]
      apply (stmt limit s ancestors env).andThen
      intro v env
      exact sequence limit rest ancestors env v

end

theorem program (limit : Nat) (p : Program) (env : Environment) :
    Walks limit p.preorder (p.eval limit env) := by
  have hwalk := sequence limit p.statements [] env .null
  exact ⟨hwalk.visits_sublist, hwalk.depth_le⟩

end Evaluation.Walks

/-! ## Evaluations that leave nothing out -/

/-- Whether there is no conditional in an expression.  Without one, there is no
statement in it either. -/
def Expr.isStraight : Expr → Bool
  | .name _ | .int _ | .bool _ => true
  | .unary _ e => e.isStraight
  | .binary _ l r => l.isStraight && r.isStraight
  | .ifThen .. | .ifElse .. => false

mutual

/-- Whether a statement is no `return`, and there is no conditional and no `return`
in it. -/
def Stmt.isStraight : Stmt → Bool
  | .bind _ e | .expr e => e.isStraight
  | .ret _ => false
  | .block b => Stmt.allStraight b

/-- Whether there is no conditional and no `return` in a sequence of statements. -/
def Stmt.allStraight : List Stmt → Bool
  | [] => true
  | s :: rest => s.isStraight && Stmt.allStraight rest

end

/-- Whether there is no conditional and no `return` in a program. -/
def Program.isStraight (p : Program) : Bool :=
  Stmt.allStraight p.statements

/-- An evaluation ends with an error, or with a plain value after it has visited all of
the nodes.  The environment is plain in both cases. -/
structure Evaluation.Covers (nodes : List Node) (e : Evaluation) : Prop where
  env_isPlain : e.env.isPlain = true
  value_ne_ret : ∀ v, e.value ≠ .ret v
  visits_eq : e.value.isPlain = true → e.visits = nodes.map Node.visit

namespace Evaluation.Covers

variable {limit : Nat} {nodes rest : List Node} {ancestors : List Enclosing}
  {env : Environment} {e : Evaluation}

/-- A plain value and the answer of an operator are no returns. -/
theorem answer {v : Value} (henv : env.isPlain = true) (hv : v.isAnswer = true) :
    Covers [] (done v env) := by
  constructor
  · exact henv
  · rintro w rfl
    cases hv
  · exact fun _ => rfl

theorem andThen
    {next : Value → Environment → Evaluation} (h : Covers nodes e)
    (hnext : ∀ v env, v.isPlain = true → env.isPlain = true → Covers rest (next v env)) :
    Covers (nodes ++ rest) (e.andThen next) := by
  by_cases hplain : e.value.isPlain = true
  · have hsignal : e.value.isSignal = false := by
      simp [e.value.isSignal_eq_not_isPlain, hplain]
    have hrest := hnext e.value e.env hplain h.env_isPlain
    rw [andThen_of_not_isSignal hsignal]
    constructor
    · exact hrest.env_isPlain
    · exact hrest.value_ne_ret
    · intro hvalue
      rw [List.map_append, ← h.visits_eq hplain, ← hrest.visits_eq hvalue]
  · have hsignal : e.value.isSignal = true := by
      simp [e.value.isSignal_eq_not_isPlain, hplain]
    rw [andThen_of_isSignal hsignal]
    exact ⟨h.env_isPlain, h.value_ne_ret, fun hvalue => absurd hvalue hplain⟩

/-- A level that is refused is an error. -/
theorem refused (henv : env.isPlain = true) (nodes : List Node) :
    Covers nodes (.done (.err (.tooDeep limit)) env) := by
  constructor
  · exact henv
  · exact fun _ => Value.noConfusion
  · exact fun hvalue => nomatch hvalue

theorem level
    {depth : Nat} {inside : Nat → Evaluation} (henv : env.isPlain = true)
    (h : Covers nodes (inside (depth + 1))) :
    Covers nodes (enter limit depth env inside) := by
  by_cases hlimit : depth < limit
  · rwa [enter, if_pos hlimit]
  · rw [enter, if_neg hlimit]
    exact refused henv nodes

theorem node
    (x : Expr) {inside : Nat → Evaluation} (henv : env.isPlain = true)
    (h : Covers nodes (inside (ancestors.length + 1))) :
    Covers (⟨x, ancestors⟩ :: nodes)
      (enter limit ancestors.length env fun depth => visiting x.kind depth (inside depth)) := by
  apply level henv
  constructor
  · exact h.env_isPlain
  · exact h.value_ne_ret
  · intro hvalue
    exact congrArg (_ :: ·) (h.visits_eq hvalue)

theorem andThen_done
    {value : Value → Value} {after : Value → Environment → Environment} (h : Covers nodes e)
    (hvalue : ∀ v, v.isPlain = true → (value v).isAnswer = true)
    (hafter : ∀ v env, v.isPlain = true → env.isPlain = true → (after v env).isPlain = true) :
    Covers nodes (e.andThen fun v env => .done (value v) (after v env)) := by
  rw [← List.append_nil nodes]
  apply h.andThen
  intro v env hv henv
  exact answer (hafter v env hv henv) (hvalue v hv)

/-- A name has a plain value or none. -/
theorem lookup (x : String) (henv : env.isPlain = true) :
    Covers [] (.done ((env.get? x).getD (.err (.unbound x))) env) := by
  apply answer henv
  cases hget : env.get? x with
  | none => rfl
  | some v => exact Value.isAnswer_of_isPlain (Environment.isPlain_of_get? henv hget)

theorem expr (limit : Nat) :
    (x : Expr) → x.isStraight = true → (ancestors : List Enclosing) →
      (env : Environment) → env.isPlain = true →
        Covers (x.preorder ancestors) (x.eval limit ancestors.length env)
  | .name x, _, ancestors, env, henv => by
      rw [Expr.preorder, Expr.eval]
      exact node (.name x) henv (lookup x henv)
  | .int n, _, ancestors, env, henv => by
      rw [Expr.preorder, Expr.eval]
      exact node (.int n) henv (answer henv rfl)
  | .bool b, _, ancestors, env, henv => by
      rw [Expr.preorder, Expr.eval]
      exact node (.bool b) henv (answer henv rfl)
  | .unary op x, hx, ancestors, env, henv => by
      rw [Expr.isStraight] at hx
      rw [Expr.preorder, Expr.eval]
      apply node (.unary op x) henv
      apply (expr limit x hx (_ :: ancestors) env henv).andThen_done
      · exact fun v _ => op.isAnswer_apply v
      · exact fun _ _ _ henv => henv
  | .binary op l r, hx, ancestors, env, henv => by
      rw [Expr.isStraight, Bool.and_eq_true] at hx
      rw [Expr.preorder, Expr.eval]
      apply node (.binary op l r) henv
      apply (expr limit l hx.1 (_ :: ancestors) env henv).andThen
      intro a env _ henv
      apply (expr limit r hx.2 (_ :: ancestors) env henv).andThen_done
      · exact fun b _ => op.isAnswer_apply a b
      · exact fun _ _ _ henv => henv

mutual

theorem stmt (limit : Nat) :
    (s : Stmt) → s.isStraight = true → (ancestors : List Enclosing) →
      (env : Environment) → env.isPlain = true →
        Covers (s.preorder ancestors) (s.eval limit ancestors.length env)
  | .bind x e, hs, ancestors, env, henv => by
      rw [Stmt.isStraight] at hs
      rw [Stmt.preorder, Stmt.eval]
      apply (expr limit e hs ancestors env henv).andThen_done
      · exact fun _ => Value.isAnswer_of_isPlain
      · exact fun _ _ hv henv => Environment.isPlain_set henv hv x
  | .expr e, hs, ancestors, env, henv => by
      rw [Stmt.isStraight] at hs
      rw [Stmt.preorder, Stmt.eval]
      exact expr limit e hs ancestors env henv
  | .block b, hs, ancestors, env, henv => by
      rw [Stmt.isStraight] at hs
      rw [Stmt.preorder, Stmt.eval]
      exact level henv (sequence limit b hs (_ :: ancestors) env henv .null rfl)

theorem sequence (limit : Nat) :
    (b : List Stmt) → Stmt.allStraight b = true → (ancestors : List Enclosing) →
      (env : Environment) → env.isPlain = true → (last : Value) → last.isPlain = true →
        Covers (Stmt.preorderAll b ancestors) (Stmt.evalAll limit b ancestors.length env last)
  | [], _, ancestors, env, henv, last, hlast => by
      rw [Stmt.preorderAll, Stmt.evalAll]
      exact answer henv (Value.isAnswer_of_isPlain hlast)
  | s :: rest, hb, ancestors, env, henv, _, _ => by
      rw [Stmt.allStraight, Bool.and_eq_true] at hb
      rw [Stmt.preorderAll, Stmt.evalAll]
      apply (stmt limit s hb.1 ancestors env henv).andThen
      intro v env hv henv
      exact sequence limit rest hb.2 ancestors env henv v hv

end

/-- A program visits all of its nodes, unless it ends with an error. -/
theorem program
    {p : Program} (hp : p.isStraight = true) (henv : env.isPlain = true)
    (hfault : (p.eval limit env).value.fault? = none) :
    (p.eval limit env).visits = p.preorder.map Node.visit := by
  obtain ⟨-, hret, hvisits⟩ := sequence limit p.statements hp [] env henv .null rfl
  apply hvisits
  rw [Program.eval] at hfault
  generalize (Stmt.evalAll limit p.statements 0 env .null).value = v at hfault hret
  cases v with
  | ret v => exact absurd rfl (hret v)
  | err fault => cases hfault
  | _ => rfl

end Evaluation.Covers

/-! ## The trace of a run -/

namespace Run

/-- The events of a run that report the evaluation of an expression. -/
def evaluations (run : Run) : List Event :=
  run.events.filter fun event => event.message = "eval"

theorem filter_readingEvents (reading : Reading Program) :
    (readingEvents reading).filter (fun event => event.message = "eval") = [] := by
  simp [readingEvents, List.filter_map, Event.message]

theorem filter_evaluationEvents (statements : Nat) (evaluation : Evaluation) :
    (evaluationEvents statements evaluation).filter (fun event => event.message = "eval") =
      evaluation.visits.map .evaluating := by
  have hvisits : (evaluation.visits.map Event.evaluating).filter
      (fun event => event.message = "eval") = evaluation.visits.map .evaluating := by
    simp [List.filter_eq_self, Event.message]
  rw [evaluationEvents, List.filter_append, List.filter_append, hvisits]
  cases evaluation.value.fault? with
  | none => simp [Event.message]
  | some fault => simp [Event.message]

/-- Of the events of a run, those with the message for it are the visits of the program. -/
theorem evaluations_ofSource
    {source : String} {p : Program} (h : Program.parse source = .ok p)
    (limit : Nat) (env : Environment) :
    (ofSource limit source env).evaluations = (p.eval limit env).visits.map .evaluating := by
  have hreading : Program.ofReading (Program.read (.ofSource source)) = .ok p := h
  simp only [evaluations, ofSource, hreading, List.filter_append]
  rw [filter_readingEvents, filter_evaluationEvents, List.nil_append]

/-- A run without an error ended with a value that is none. -/
theorem fault?_of_resultOf_eq_ok {v w : Value} (h : resultOf v = .ok w) : v.fault? = none := by
  cases v with
  | err fault => cases h
  | _ => rfl

end Run

/-- The entries of a sublist are images of entries of the whole list, in their order. -/
theorem exists_place_of_sublist_map
    {α β : Type} {f : α → β} {l : List β} {l' : List α} (h : l.Sublist (l'.map f)) :
    ∃ place : Fin l.length ↪o Fin l'.length, ∀ i, l.get i = f (l'.get (place i)) := by
  obtain ⟨place, hplace⟩ := List.sublist_iff_exists_fin_orderEmbedding_get_eq.mp h
  have hlength : (l'.map f).length = l'.length := List.length_map f
  refine ⟨place.trans (Fin.castOrderIso hlength).toOrderEmbedding, ?_⟩
  intro i
  rw [hplace i]
  simp

/-- The trace of a walk is placed on its nodes. -/
theorem Evaluation.Walks.exists_place
    {limit : Nat} {nodes : List Node} {e : Evaluation} (h : Walks limit nodes e)
    {events : List Event} (hevents : events = e.visits.map .evaluating) :
    ∃ place : Fin events.length ↪o Fin nodes.length,
      ∀ i, events.get i = .evaluating (nodes.get (place i)).visit ∧
        1 ≤ (nodes.get (place i)).visit.depth ∧ (nodes.get (place i)).visit.depth ≤ limit := by
  have hsublist : events.Sublist (nodes.map (Event.evaluating ∘ Node.visit)) := by
    rw [hevents, ← List.map_map]
    exact h.visits_sublist.map Event.evaluating
  obtain ⟨place, hplace⟩ := exists_place_of_sublist_map hsublist
  refine ⟨place, ?_⟩
  intro i
  have hmem : Event.evaluating (nodes.get (place i)).visit ∈ e.visits.map .evaluating := by
    rw [← hevents]
    exact List.mem_iff_get.mpr ⟨i, hplace i⟩
  obtain ⟨visit, hvisit, heq⟩ := List.mem_map.mp hmem
  rw [Event.evaluating.injEq] at heq
  rw [heq] at hvisit
  exact ⟨hplace i, Nat.le_add_left 1 _, h.depth_le _ hvisit⟩

/-- The trace of a run is a walk through the expressions of the program in source
order.  It meets each of them at most once, and names its form and its depth, which the
limit allows.  If it succeeds and there is no conditional and no `return`, it meets all
of them.  With a counter for the depth, the run is the same, and the counter ends
where it began. -/
theorem trace_walks_preorder
    {source : String} {p : Program} (h : Program.parse source = .ok p)
    {env : Environment} (henv : env.isPlain = true) (limit : Nat) :
    (∃ place : Fin (Run.ofSource limit source env).evaluations.length ↪o Fin p.preorder.length,
      (∀ i, (Run.ofSource limit source env).evaluations.get i =
          .evaluating (p.preorder.get (place i)).visit ∧
        ((Run.ofSource limit source env).evaluations.get i).level = .trace ∧
        ((Run.ofSource limit source env).evaluations.get i).target = "mandrill::eval" ∧
        ((Run.ofSource limit source env).evaluations.get i).fields =
          [("kind", match (p.preorder.get (place i)).expr with
              | .name _ => "identifier"
              | .int _ => "integer literal"
              | .bool _ => "boolean literal"
              | .unary .. => "prefix expression"
              | .binary .. => "infix expression"
              | .ifThen .. | .ifElse .. => "if expression"),
            ("depth", ((p.preorder.get (place i)).ancestors.length + 1).repr)] ∧
        1 ≤ (p.preorder.get (place i)).visit.depth ∧
        (p.preorder.get (place i)).visit.depth ≤ limit) ∧
      ((∃ v, (Run.ofSource limit source env).result = .ok v) → p.isStraight = true →
        Function.Surjective place)) ∧
    ∃ v visits,
      ((p.evalCounting limit).run ⟨env, 0, []⟩).run =
        (v, ⟨(Run.ofSource limit source env).env, 0, visits⟩) ∧
      (Run.ofSource limit source env).result = Run.resultOf v ∧
      (Run.ofSource limit source env).evaluations = visits.map .evaluating := by
  obtain ⟨hresult, henv'⟩ := Run.ofSource_of_parse_eq_ok h limit env
  have hevents := Run.evaluations_ofSource h limit env
  constructor
  · obtain ⟨place, hplace⟩ := (Walks.program limit p env).exists_place hevents
    refine ⟨place, fun i => ?_, ?_⟩
    · obtain ⟨hevent, hdepth⟩ := hplace i
      rw [hevent]
      refine ⟨rfl, rfl, rfl, ?_, hdepth⟩
      obtain ⟨x, ancestors⟩ := p.preorder.get (place i)
      cases x with
      | name | int | bool | unary | binary | ifThen | ifElse => rfl
    · rintro ⟨v, hv⟩ hstraight
      rw [hresult] at hv
      have hvisits := Covers.program hstraight henv (Run.fault?_of_resultOf_eq_ok hv)
      have hlength : (Run.ofSource limit source env).evaluations.length = p.preorder.length := by
        rw [hevents, hvisits, List.length_map, List.length_map]
      exact (Finite.injective_iff_surjective_of_equiv (finCongr hlength)).mp place.injective
  · refine ⟨_, _, ?_, hresult, hevents⟩
    rw [henv']
    exact p.run_evalCounting limit env []

/-- A definition and a block with the defined name.  The limit just allows the run, and
the trace shows both names at the same depth, one in an expression and one in the block. -/
theorem trace_walks_preorder_block :
    ∃ (source : String) (p : Program) (env : Environment),
      source = "let a = !x \x7b a \x7d" ∧
      p = ⟨[.bind "a" (.unary .not (.name "x")), .block [.expr (.name "a")]]⟩ ∧
      env = (Environment.empty.set "x" (.bool true)).enclosed ∧
      Program.parse source = .ok p ∧ env.isPlain = true ∧ p.isStraight = true ∧
      (Run.ofSource 2 source env).result = .ok (.bool false) ∧
      p.preorder.map Node.visit = [⟨.unary, 1⟩, ⟨.name, 2⟩, ⟨.name, 2⟩] ∧
      (Run.ofSource 2 source env).evaluations.map Event.fields =
        [[("kind", "prefix expression"), ("depth", "1")],
          [("kind", "identifier"), ("depth", "2")], [("kind", "identifier"), ("depth", "2")]] ∧
      ∃ place : Fin (Run.ofSource 2 source env).evaluations.length ↪o Fin p.preorder.length,
        Function.Surjective place ∧
        ∀ i, (Run.ofSource 2 source env).evaluations.get i =
          .evaluating (p.preorder.get (place i)).visit := by
  have hparse : Program.parse "let a = !x \x7b a \x7d" =
      .ok ⟨[.bind "a" (.unary .not (.name "x")), .block [.expr (.name "a")]]⟩ := rfl
  have henv : (Environment.empty.set "x" (.bool true)).enclosed.isPlain = true := by decide
  refine ⟨_, _, _, rfl, rfl, rfl, hparse, henv, rfl, rfl, rfl, rfl, ?_⟩
  obtain ⟨⟨place, hplace, hall⟩, -⟩ := trace_walks_preorder hparse henv 2
  exact ⟨place, hall ⟨_, rfl⟩ rfl, fun i => (hplace i).1⟩

end LetLang
