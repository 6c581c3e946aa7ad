import LetLang.Environment
import LetLang.Value.Operation

/-!
# Plain values and environments

Signals pass through an evaluation, but they are no data: operators and names
are meant to see integers, booleans and null only.  An environment in which all
bindings are such values stays one when another such value is bound, and an
operator answers with such a value or with a fault of its own.
-/

namespace LetLang

/-- Whether a value is an integer, a boolean or null. -/
def Value.isPlain : Value → Bool
  | int _ | bool _ | null => true
  | ret _ | err _ => false

theorem Value.isSignal_eq_not_isPlain (v : Value) : v.isSignal = !v.isPlain := by
  cases v <;> rfl

/-- Whether all bindings of a scope are plain values. -/
def Scope.isPlain (s : Scope) : Bool :=
  s.bindings.all fun b => b.2.isPlain

/-- Whether all bindings in all scopes are plain values. -/
def Environment.isPlain (env : Environment) : Bool :=
  env.scopes.all Scope.isPlain

namespace Scope

theorem isPlain_of_get?
    {s : Scope} {x : String} {v : Value} (hs : s.isPlain = true) (hv : s.get? x = some v) :
    v.isPlain = true := by
  obtain ⟨before, after, hbindings, -⟩ := List.lookup_eq_some_iff.mp hv
  have hmem : (x, v) ∈ s.bindings := by
    rw [hbindings]
    exact List.mem_append_right before List.mem_cons_self
  exact List.all_eq_true.mp hs (x, v) hmem

theorem all_assign
    {q : Value → Bool} {x : String} {v : Value} {bindings : List (String × Value)}
    (hbindings : bindings.all (fun b => q b.2) = true) (hv : q v = true) :
    (assign x v bindings).all (fun b => q b.2) = true := by
  induction bindings with
  | nil => simp [assign, hv]
  | cons b rest ih =>
      simp only [List.all_cons, Bool.and_eq_true] at hbindings
      by_cases hb : b.1 = x
      · simpa [assign, hb, hv] using hbindings.2
      · simpa [assign, hb, hbindings.1] using ih hbindings.2

end Scope

namespace Environment

theorem isPlain_of_get?
    {env : Environment} {x : String} {v : Value} (henv : env.isPlain = true)
    (hv : env.get? x = some v) : v.isPlain = true := by
  obtain ⟨s, hs, hget⟩ := List.exists_of_findSome?_eq_some hv
  exact Scope.isPlain_of_get? (List.all_eq_true.mp henv s hs) hget

/-- Binding a plain value keeps an environment plain. -/
theorem isPlain_set
    {env : Environment} {v : Value} (henv : env.isPlain = true) (hv : v.isPlain = true)
    (x : String) : (env.set x v).isPlain = true := by
  simp only [isPlain, scopes, List.all_cons, Bool.and_eq_true] at henv ⊢
  exact ⟨Scope.all_assign henv.1 hv, henv.2⟩

end Environment

/-! ## The answers of operators -/

/-- Whether a fault is about the program alone, and not about the depth at which
it is evaluated. -/
def Fault.isOrdinary : Fault → Bool
  | tooDeep _ | stated _ => false
  | _ => true

/-- An answer is a plain value or an ordinary fault. -/
def Value.isAnswer : Value → Bool
  | err fault => fault.isOrdinary
  | v => v.isPlain

theorem Value.isAnswer_of_isPlain {v : Value} (hv : v.isPlain = true) : v.isAnswer = true := by
  cases v with
  | err fault => cases hv
  | _ => exact hv

/-- Whether a fault is about the operands of an operator. -/
def Fault.isOperational : Fault → Bool
  | unbound _ | tooDeep _ | stated _ => false
  | _ => true

/-- What an operator computes is a plain value or a fault about its operands. -/
def Value.isComputed : Value → Bool
  | err fault => fault.isOperational
  | v => v.isPlain

theorem Value.isComputed_ofResult
    {fault : Fault} (h : fault.isOperational = true) (result : Option Integer) :
    (Value.ofResult result fault).isComputed = true := by
  cases result with
  | none => exact h
  | some n => rfl

theorem UnaryOp.isComputed_apply (op : UnaryOp) (v : Value) :
    (op.apply v).isComputed = true := by
  cases op with
  | not => cases v <;> rfl
  | neg =>
      cases v with
      | int n => exact Value.isComputed_ofResult rfl n.neg?
      | _ => rfl

theorem BinaryOp.isComputed_applyInts
    (op : BinaryOp) (l r : Integer) : (op.applyInts l r).isComputed = true := by
  cases op with
  | add | sub | mul => exact Value.isComputed_ofResult rfl _
  | div =>
      rw [BinaryOp.applyInts]
      split
      · rfl
      · exact Value.isComputed_ofResult rfl _
  | _ => rfl

theorem BinaryOp.isComputed_apply
    (op : BinaryOp) (a b : Value) : (op.apply a b).isComputed = true := by
  unfold BinaryOp.apply
  split
  · exact op.isComputed_applyInts _ _
  · cases op <;> rfl
  · split <;> rfl

theorem Fault.isOrdinary_of_isOperational {fault : Fault} (h : fault.isOperational = true) :
    fault.isOrdinary = true := by
  cases fault with
  | tooDeep limit => cases h
  | stated message => cases h
  | _ => rfl

theorem Value.isAnswer_of_isComputed {v : Value} (hv : v.isComputed = true) :
    v.isAnswer = true := by
  cases v with
  | err fault => exact Fault.isOrdinary_of_isOperational hv
  | _ => exact hv

theorem UnaryOp.isAnswer_apply (op : UnaryOp) (v : Value) : (op.apply v).isAnswer = true :=
  Value.isAnswer_of_isComputed (op.isComputed_apply v)

theorem BinaryOp.isAnswer_apply
    (op : BinaryOp) (a b : Value) : (op.apply a b).isAnswer = true :=
  Value.isAnswer_of_isComputed (op.isComputed_apply a b)

end LetLang
