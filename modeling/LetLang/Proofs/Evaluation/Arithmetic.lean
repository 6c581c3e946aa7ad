import LetLang.Proofs.Evaluation.DepthLimit

/-!
# Arithmetic is exact

An expression of integers, names of integers and the four operations has a value
over the whole numbers, which need not fit the language's integers.  Evaluation
yields this value unless some node of the expression divides by zero or has a
value out of range.  In that case it reports the first such node that it comes
to, with the exact values of its operands.
-/

namespace LetLang

/-- The operators that compute an integer. -/
def BinaryOp.isArithmetic : BinaryOp → Bool
  | add | sub | mul | div => true
  | lt | gt | eq | ne => false

/-- What an operator gives over the whole numbers.  Quotients are rounded toward
zero, and a quotient by zero, like a comparison, counts as zero. -/
def BinaryOp.exact : BinaryOp → Int → Int → Int
  | add, a, b => a + b
  | sub, a, b => a - b
  | mul, a, b => a * b
  | div, a, b => a.tdiv b
  | lt, _, _ | gt, _, _ | eq, _, _ | ne, _, _ => 0

namespace Expr

variable (env : Environment)

/-- Expressions of integers, names that are bound to integers, and the operations
on them. -/
inductive IsArithmetic : Expr → Prop where
  | name {x : String} {n : Integer} (hx : env.get? x = some (.int n)) : IsArithmetic (.name x)
  | int (n : Integer) : IsArithmetic (.int n)
  | neg {e : Expr} (he : IsArithmetic e) : IsArithmetic (.unary .neg e)
  | binary {op : BinaryOp} {l r : Expr} (hop : op.isArithmetic = true)
      (hl : IsArithmetic l) (hr : IsArithmetic r) : IsArithmetic (.binary op l r)

/-- The value of an arithmetic expression over the whole numbers. -/
def exact : Expr → Int
  | .name x => ((env.get? x).bind Value.int?).elim 0 Integer.toInt
  | .int n => n.toInt
  | .unary _ e => -e.exact
  | .binary op l r => op.exact l.exact r.exact
  | .bool _ | .ifThen _ _ | .ifElse _ _ _ => 0

/-- The nodes of an arithmetic expression, operands before what they stand in and
left ones before right ones. -/
def nodes : Expr → List Expr
  | .unary op e => e.nodes ++ [.unary op e]
  | .binary op l r => l.nodes ++ r.nodes ++ [.binary op l r]
  | e => [e]

/-- Whether the expression is a division by something that is exactly zero. -/
def dividesByZero : Expr → Bool
  | .binary .div _ r => r.exact env = 0
  | _ => false

/-- Whether the expression divides by zero or has an exact value out of range. -/
def isHazard (e : Expr) : Bool :=
  e.dividesByZero env || ¬Integer.InRange (e.exact env)

/-- The report of a hazard, with the exact values of its operands. -/
def complaint : Expr → String
  | .unary _ e => "integer overflow: -(" ++ (e.exact env).repr ++ ")"
  | .binary op l r =>
      if (Expr.binary op l r).dividesByZero env then
        "division by zero: " ++ (l.exact env).repr ++ " / 0"
      else
        "integer overflow: " ++ (l.exact env).repr ++ " " ++ op.symbol ++ " " ++
          (r.exact env).repr
  | _ => ""

/-- The first hazard among the nodes, if there is one. -/
def firstHazard? (e : Expr) : Option Expr :=
  e.nodes.find? (isHazard env)

/-- A value is the exact value of an expression without hazards, or the report of
its first hazard. -/
inductive Settles (e : Expr) : Value → Prop where
  | exactly {n : Integer} (hsafe : e.firstHazard? env = none) (hn : n.toInt = e.exact env) :
      Settles e (.int n)
  | reports {fault : Fault} {node : Expr} (hfirst : e.firstHazard? env = some node)
      (hmessage : fault.message = node.complaint env) : Settles e (.err fault)

variable {env} in
/-- An integer settles exactly the expressions without hazards that it is the value
of. -/
theorem Settles.eq_int_iff {e : Expr} {v : Value} (h : Settles env e v) {n : Integer} :
    v = .int n ↔ e.firstHazard? env = none ∧ n.toInt = e.exact env := by
  cases h with
  | @exactly m hsafe hm =>
      constructor
      · rintro ⟨⟩
        exact ⟨hsafe, hm⟩
      · rintro ⟨-, hn⟩
        exact congrArg Value.int (Integer.ext_toInt (hm.trans hn.symm))
  | reports hfirst _ =>
      constructor
      · rintro ⟨⟩
      · rintro ⟨hsafe, -⟩
        rw [hfirst] at hsafe
        cases hsafe

end Expr

/-! ## One operation -/

theorem Value.ofResult_ofInt?_of_inRange
    {k : Int} (h : Integer.InRange k) (fault : Fault) :
    ofResult (Integer.ofInt? k) fault = .int ⟨k, h⟩ := by
  have hresult : Integer.ofInt? k = some ⟨k, h⟩ := Integer.ofInt?_eq_some_iff.mpr rfl
  rw [hresult, ofResult]

theorem Value.ofResult_ofInt?_of_not_inRange
    {k : Int} (h : ¬Integer.InRange k) (fault : Fault) :
    ofResult (Integer.ofInt? k) fault = .err fault := by
  rw [Integer.ofInt?_eq_none_iff.mpr h, ofResult]

/-- Apart from a division by zero, an operation on integers takes the exact result
if that is in range. -/
theorem BinaryOp.applyInts_of_isArithmetic
    {op : BinaryOp} (hop : op.isArithmetic = true) {a b : Integer}
    (hzero : ¬(op = .div ∧ b.toInt = 0)) :
    op.applyInts a b =
      .ofResult (Integer.ofInt? (op.exact a.toInt b.toInt)) (.overflow op a b) := by
  cases op with
  | add | sub | mul => rfl
  | div =>
      have hb : b.toInt ≠ 0 := fun hb => hzero ⟨rfl, hb⟩
      rw [applyInts, if_neg hb]
      rfl
  | lt | gt | eq | ne => cases hop

namespace Expr

variable {env : Environment}

theorem dividesByZero_binary_iff {op : BinaryOp} {l r : Expr} :
    (Expr.binary op l r).dividesByZero env = true ↔ op = .div ∧ r.exact env = 0 := by
  cases op <;> simp [dividesByZero]

theorem complaint_of_dividesByZero
    {op : BinaryOp} {l r : Expr} (h : (Expr.binary op l r).dividesByZero env = true) :
    (Expr.binary op l r).complaint env =
      "division by zero: " ++ (l.exact env).repr ++ " / 0" :=
  if_pos h

theorem complaint_of_not_dividesByZero
    {op : BinaryOp} {l r : Expr} (h : ¬(Expr.binary op l r).dividesByZero env = true) :
    (Expr.binary op l r).complaint env =
      "integer overflow: " ++ (l.exact env).repr ++ " " ++ op.symbol ++ " " ++
        (r.exact env).repr :=
  if_neg h

theorem isHazard_iff {e : Expr} :
    e.isHazard env = true ↔ e.dividesByZero env = true ∨ ¬Integer.InRange (e.exact env) := by
  simp only [isHazard, Bool.or_eq_true, decide_eq_true_eq]

/-- Behind operands without hazards, only the expression itself decides whether its
value has to be exact or a report. -/
theorem Settles.of_operands
    {e : Expr} {v : Value}
    (hfirst : e.firstHazard? env = if e.isHazard env then some e else none)
    (hsafe : e.isHazard env = false → ∃ n : Integer, v = .int n ∧ n.toInt = e.exact env)
    (hhazard : e.isHazard env = true →
      ∃ fault, v = .err fault ∧ fault.message = e.complaint env) : Settles env e v := by
  cases hself : e.isHazard env with
  | false =>
      obtain ⟨n, rfl, hn⟩ := hsafe hself
      exact .exactly (by simp [hfirst, hself]) hn
  | true =>
      obtain ⟨fault, rfl, hmessage⟩ := hhazard hself
      exact .reports (by simp [hfirst, hself]) hmessage

theorem firstHazard?_eq_none_iff {e : Expr} :
    e.firstHazard? env = none ↔ ∀ node ∈ e.nodes, node.isHazard env = false := by
  simp only [firstHazard?, List.find?_eq_none, Bool.not_eq_true]

theorem firstHazard?_unary (op : UnaryOp) (e : Expr) :
    (Expr.unary op e).firstHazard? env =
      (e.firstHazard? env).or
        (if (Expr.unary op e).isHazard env then some (.unary op e) else none) := by
  simp only [firstHazard?, nodes, List.find?_append, List.find?_singleton]

theorem firstHazard?_binary (op : BinaryOp) (l r : Expr) :
    (Expr.binary op l r).firstHazard? env =
      (l.firstHazard? env).or ((r.firstHazard? env).or
        (if (Expr.binary op l r).isHazard env then some (.binary op l r) else none)) := by
  simp only [firstHazard?, nodes, List.find?_append, List.find?_singleton, Option.or_assoc]

theorem settles_neg
    {e : Expr} {n : Integer} (hsafe : e.firstHazard? env = none) (hn : n.toInt = e.exact env) :
    Settles env (.unary .neg e) (UnaryOp.neg.apply (.int n)) := by
  have hexact : (Expr.unary .neg e).exact env = -n.toInt := by rw [hn]; rfl
  have hself : (Expr.unary .neg e).isHazard env = true ↔ ¬Integer.InRange (-n.toInt) := by
    rw [isHazard_iff, hexact]
    exact or_iff_right Bool.false_ne_true
  apply Settles.of_operands
  · rw [firstHazard?_unary, hsafe, Option.none_or]
  · intro hsafe
    rw [← Bool.not_eq_true, hself, not_not] at hsafe
    exact ⟨_, Value.ofResult_ofInt?_of_inRange hsafe _, hexact.symm⟩
  · intro hhazard
    refine ⟨_, Value.ofResult_ofInt?_of_not_inRange (hself.mp hhazard) _, ?_⟩
    exact congrArg (fun k : Int => "integer overflow: -(" ++ k.repr ++ ")") hn

/-- Behind safe operands, a zero divisor is noticed before an overflow. -/
theorem settles_binary
    {op : BinaryOp} (hop : op.isArithmetic = true) {l r : Expr} {a b : Integer}
    (hl : l.firstHazard? env = none) (ha : a.toInt = l.exact env)
    (hr : r.firstHazard? env = none) (hb : b.toInt = r.exact env) :
    Settles env (.binary op l r) (op.apply (.int a) (.int b)) := by
  have hexact : (Expr.binary op l r).exact env = op.exact a.toInt b.toInt := by rw [ha, hb]; rfl
  apply Settles.of_operands
  · rw [firstHazard?_binary, hl, hr, Option.none_or, Option.none_or]
  · intro hsafe
    rw [← Bool.not_eq_true, isHazard_iff, dividesByZero_binary_iff, hexact, ← hb, not_or,
      not_not] at hsafe
    obtain ⟨hzero, hrange⟩ := hsafe
    refine ⟨⟨_, hrange⟩, ?_, hexact.symm⟩
    exact (BinaryOp.applyInts_of_isArithmetic hop hzero).trans
      (Value.ofResult_ofInt?_of_inRange hrange _)
  · intro hhazard
    -- A zero divisor makes the exact value meaningless, so it is told apart first.
    by_cases hzero : (Expr.binary op l r).dividesByZero env = true
    · rw [complaint_of_dividesByZero hzero, ← ha]
      obtain ⟨rfl, hr⟩ := dividesByZero_binary_iff.mp hzero
      exact ⟨.divisionByZero a, if_pos (hb.trans hr), rfl⟩
    · rw [complaint_of_not_dividesByZero hzero, ← ha, ← hb]
      have hrange := (isHazard_iff.mp hhazard).resolve_left hzero
      rw [hexact] at hrange
      rw [dividesByZero_binary_iff, ← hb] at hzero
      refine ⟨.overflow op a b, ?_, rfl⟩
      exact (BinaryOp.applyInts_of_isArithmetic hop hzero).trans
        (Value.ofResult_ofInt?_of_not_inRange hrange _)

/-! ## Whole expressions -/

/-- An evaluation that leaves the environment alone and settles an expression. -/
def SettledBy (env : Environment) (e : Expr) (evaluation : Evaluation) : Prop :=
  evaluation.env = env ∧ Settles env e evaluation.value

/-- An operand hands on its exact value, or its first hazard is that of the whole
expression. -/
theorem SettledBy.andThen
    {operand e : Expr} {evaluation : Evaluation} {next : Value → Environment → Evaluation}
    (hoperand : operand.SettledBy env evaluation)
    (hreported : ∀ node, operand.firstHazard? env = some node → e.firstHazard? env = some node)
    (hnext : ∀ n : Integer, operand.firstHazard? env = none → n.toInt = operand.exact env →
      e.SettledBy env (next (.int n) env)) :
    e.SettledBy env (evaluation.andThen next) := by
  obtain ⟨value, reached, visits⟩ := evaluation
  obtain ⟨rfl, hsettles⟩ := hoperand
  cases hsettles with
  | exactly hsafe hn =>
      rw [Evaluation.andThen_of_not_isSignal rfl]
      exact hnext _ hsafe hn
  | reports hfirst hmessage =>
      rw [Evaluation.andThen_of_isSignal rfl]
      exact ⟨rfl, .reports (hreported _ hfirst) hmessage⟩

/-- A single node with an integer for a value. -/
theorem SettledBy.leaf
    {e : Expr} {n : Integer} (hnodes : e.nodes = [e]) (hzero : e.dividesByZero env = false)
    (hn : n.toInt = e.exact env) (visits : List Evaluation.Visit) :
    e.SettledBy env ⟨.int n, env, visits⟩ := by
  have hself : e.isHazard env = false := by
    rw [← Bool.not_eq_true, isHazard_iff, hzero, ← hn]
    exact not_or.mpr ⟨Bool.false_ne_true, not_not.mpr n.inRange⟩
  refine ⟨rfl, .exactly ?_ hn⟩
  rw [firstHazard?, hnodes, List.find?_singleton, hself]
  rfl

theorem IsArithmetic.settledBy_eval
    {limit : Nat} {e : Expr} (h : IsArithmetic env e) {depth : Nat}
    (hdepth : depth + e.height ≤ limit) : e.SettledBy env (e.eval limit depth env) := by
  induction h generalizing depth with
  | @name x n hx =>
      rw [Expr.height] at hdepth
      rw [Expr.eval, Evaluation.enter, if_pos (by omega), hx]
      refine .leaf rfl rfl ?_ _
      simp [exact, hx, Value.int?]
  | int n =>
      rw [Expr.height] at hdepth
      rw [Expr.eval, Evaluation.enter, if_pos (by omega)]
      exact .leaf rfl rfl rfl _
  | @neg e he ih =>
      rw [Expr.height] at hdepth
      rw [Expr.eval, Evaluation.enter, if_pos (by omega)]
      refine (ih (by omega)).andThen ?_ ?_
      · intro node hnode
        rw [firstHazard?_unary, hnode, Option.some_or]
      · intro n hsafe hn
        exact ⟨rfl, settles_neg hsafe hn⟩
  | @binary op l r hop hl hr ihl ihr =>
      rw [Expr.height] at hdepth
      rw [Expr.eval, Evaluation.enter, if_pos (by omega)]
      refine (ihl (by omega)).andThen ?_ ?_
      · intro node hnode
        rw [firstHazard?_binary, hnode, Option.some_or]
      · intro a hlsafe ha
        -- The right operand is only reached if the left one has no hazard.
        refine (ihr (by omega)).andThen ?_ ?_
        · intro node hnode
          rw [firstHazard?_binary, hlsafe, hnode, Option.none_or, Option.some_or]
        · intro b hrsafe hb
          exact ⟨rfl, settles_binary hop hlsafe ha hrsafe hb⟩

end Expr

/-- An arithmetic expression that is no higher than the limit allows evaluates to
an integer exactly when none of its nodes divides by zero or is out of range over
the whole numbers, and then to its exact value.  Otherwise it evaluates to the
report of the first node that does, operands before what they stand in and left
ones before right ones.  The bindings are not changed. -/
theorem eval_arithmetic_exact
    (limit depth : Nat) (env : Environment) (e : Expr) (harithmetic : e.IsArithmetic env)
    (hdepth : depth + e.height ≤ limit) :
    (∀ n : Integer, (e.eval limit depth env).value = .int n ↔
      (∀ node ∈ e.nodes, node.isHazard env = false) ∧ n.toInt = e.exact env) ∧
    ((∃ n : Integer, (e.eval limit depth env).value = .int n) ∨
      ∃ node fault, e.nodes.find? (Expr.isHazard env) = some node ∧
        (e.eval limit depth env).value = .err fault ∧
          fault.message = node.complaint env) ∧
    (e.eval limit depth env).env = env := by
  obtain ⟨henv, hsettles⟩ := harithmetic.settledBy_eval hdepth
  refine ⟨fun n => ?_, ?_, henv⟩
  · rw [hsettles.eq_int_iff, Expr.firstHazard?_eq_none_iff]
  · generalize (e.eval limit depth env).value = v at hsettles
    cases hsettles with
    | exactly _ _ => exact .inl ⟨_, rfl⟩
    | reports hfirst hmessage => exact .inr ⟨_, _, hfirst, rfl, hmessage⟩

/-- The lowest integer divided by minus one, to the left of a division by zero and
inside a sum. -/
theorem eval_arithmetic_exact_overflow :
    ∃ (env : Environment) (e hazard : Expr),
      env = Environment.empty.set "x" (.int ⟨-9223372036854775808, by decide⟩) ∧
      hazard = .binary .div (.name "x") (.unary .neg (.int ⟨1, by decide⟩)) ∧
      e = .binary .add (.int ⟨7, by decide⟩)
        (.binary .mul hazard (.binary .div (.name "x") (.int ⟨0, by decide⟩))) ∧
      e.IsArithmetic env ∧ 0 + e.height ≤ 5 ∧
      hazard.exact env = 9223372036854775808 ∧
      e.nodes.find? (Expr.isHazard env) = some hazard ∧
      ∃ fault, (e.eval 5 0 env).value = .err fault ∧
        fault.message = "integer overflow: -9223372036854775808 / -1" := by
  obtain ⟨env, henv⟩ : ∃ env, env =
      Environment.empty.set "x" (.int ⟨-9223372036854775808, by decide⟩) := ⟨_, rfl⟩
  have hx : env.get? "x" = some (.int ⟨-9223372036854775808, by decide⟩) := by
    subst henv
    rfl
  have harithmetic : Expr.IsArithmetic env
      (.binary .add (.int ⟨7, by decide⟩)
        (.binary .mul (.binary .div (.name "x") (.unary .neg (.int ⟨1, by decide⟩)))
          (.binary .div (.name "x") (.int ⟨0, by decide⟩)))) :=
    .binary rfl (.int _)
      (.binary rfl (.binary rfl (.name hx) (.neg (.int _))) (.binary rfl (.name hx) (.int _)))
  refine ⟨env, _, _, henv, rfl, rfl, harithmetic, by decide, ?_, ?_, ?_⟩
  · subst henv
    rfl
  · subst henv
    rfl
  · obtain ⟨-, ⟨n, hn⟩ | ⟨node, fault, hfirst, hvalue, hmessage⟩, -⟩ :=
      eval_arithmetic_exact 5 0 env _ harithmetic (by decide)
    · subst henv
      cases hn
    · subst henv
      cases hfirst
      exact ⟨fault, hvalue, hmessage⟩

end LetLang
