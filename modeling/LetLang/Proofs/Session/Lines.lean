import LetLang.Proofs.Grammar.Concatenation
import LetLang.Run

/-!
# Texts line by line and all at once

Source texts that are run one after the other in the same environment do what
they do as the lines of a single text.  As long as every text comes to its end,
the environment is the same, and the value is that of the last text which has a
statement.  The first text that stops early, by an error or a return, is the one
at which the single text stops, too.
-/

namespace LetLang

/-! ## Statements in two parts -/

theorem Evaluation.andThen_assoc
    (e : Evaluation) (f g : Value → Environment → Evaluation) :
    (e.andThen f).andThen g = e.andThen fun v env => (f v env).andThen g := by
  by_cases he : e.value.isSignal = true
  · simp [andThen, he]
  · by_cases hf : (f e.value e.env).value.isSignal = true
    · simp [andThen, he, hf]
    · simp [andThen, he, hf]

theorem Evaluation.andThen_congr
    {e : Evaluation} {f g : Value → Environment → Evaluation}
    (h : ∀ v env, v.isSignal = false → f v env = g v env) : e.andThen f = e.andThen g := by
  by_cases he : e.value.isSignal = true
  · rw [andThen_of_isSignal he, andThen_of_isSignal he]
  · rw [andThen, andThen, h e.value e.env (Bool.of_not_eq_true he)]

namespace Stmt

variable {limit depth : Nat} {env : Environment} {last : Value}

theorem evalAll_append (hlast : last.isSignal = false) (a b : List Stmt) :
    evalAll limit (a ++ b) depth env last =
      (evalAll limit a depth env last).andThen fun v env => evalAll limit b depth env v := by
  induction a generalizing env last with
  | nil =>
      simp [evalAll, Evaluation.andThen, Evaluation.done, hlast]
  | cons s a ih =>
      rw [List.cons_append, evalAll, evalAll, Evaluation.andThen_assoc]
      apply Evaluation.andThen_congr
      intro v env hv
      exact ih hv

/-- What was the value before statements matters only if there are none. -/
theorem evalAll_of_ne_nil {b : List Stmt} (hb : b ≠ []) (last last' : Value) :
    evalAll limit b depth env last = evalAll limit b depth env last' := by
  obtain ⟨s, b, rfl⟩ := List.exists_cons_of_ne_nil hb
  rfl

end Stmt

/-! ## Reading lines -/

open Grammar

theorem startsWithoutMinus_scan
    {source : String} (h : StartsWithoutMinus (TokenStream.ofSource source).tokens)
    (p : Position) : StartsWithoutMinus (scan 0 p source.toList) := by
  intro t ht
  obtain ⟨u, hu, hkind⟩ := exists_head?_scan ht .start
  exact hkind ▸ h u hu

theorem startsWithoutMinus_scan_intercalate
    {sources : List String}
    (h : ∀ s ∈ sources, StartsWithoutMinus (TokenStream.ofSource s).tokens) (p : Position) :
    StartsWithoutMinus (scan 0 p ("\n".intercalate sources).toList) := by
  induction sources generalizing p with
  | nil =>
      intro t ht
      cases ht
  | cons s sources ih =>
      obtain ⟨hs, hsources⟩ := List.forall_mem_cons.mp h
      cases sources with
      | nil =>
          rw [String.intercalate_singleton]
          exact startsWithoutMinus_scan hs p
      | cons s' sources =>
          rw [String.intercalate_cons_cons, scan_append_separator (w := '\n') rfl rfl]
          exact (startsWithoutMinus_scan hs p).append (ih hsources _)

/-- Texts without errors, of which only the first may start with a minus sign, are
read on consecutive lines as all their statements in a row. -/
theorem derives_scan_intercalate
    {sources : List String} {programs : List Program}
    (hparse : List.Forall₂ (fun s p => Program.parse s = .ok p) sources programs)
    (hminus : ∀ s ∈ sources.tail, StartsWithoutMinus (TokenStream.ofSource s).tokens)
    (position : Position) :
    ∃ n, Derives (scan 0 position ("\n".intercalate sources).toList)
      ⟨programs.flatMap Program.statements⟩ n ∧ n ≤ Parser.maxNesting := by
  induction hparse generalizing position with
  | nil => exact ⟨0, Statements.nil, Nat.zero_le _⟩
  | @cons s p sources programs hs hsources ih =>
      obtain ⟨m, hfirst, hm⟩ := Program.derives_scan_of_parse_eq_ok hs position
      cases hsources with
      | nil =>
          rw [String.intercalate_singleton, List.flatMap_singleton]
          exact ⟨m, hfirst, hm⟩
      | @cons s' p' sources programs hs' hsources =>
          rw [String.intercalate_cons_cons, scan_append_separator (w := '\n') rfl rfl,
            List.flatMap_cons]
          have htail : ∀ u ∈ (s' :: sources).tail,
              StartsWithoutMinus (TokenStream.ofSource u).tokens :=
            fun u hu => hminus u (List.mem_of_mem_tail hu)
          obtain ⟨n, hrest, hn⟩ := ih htail (position.afterAll (s.toList ++ ['\n']))
          have hstarts := startsWithoutMinus_scan_intercalate hminus
            (position.afterAll (s.toList ++ ['\n']))
          refine ⟨max m n, ?_, Nat.max_le.mpr ⟨hm, hn⟩⟩
          exact hfirst.append hrest (Or.inr (Or.inr (Or.inr hstarts)))

theorem parse_intercalate_newline
    {sources : List String} {programs : List Program}
    (hparse : List.Forall₂ (fun s p => Program.parse s = .ok p) sources programs)
    (hminus : ∀ s ∈ sources.tail, StartsWithoutMinus (TokenStream.ofSource s).tokens) :
    Program.parse ("\n".intercalate sources) = .ok ⟨programs.flatMap Program.statements⟩ := by
  obtain ⟨n, hderives, hn⟩ := derives_scan_intercalate hparse hminus .start
  exact Program.parse_eq_ok_of_derives hderives hn

/-! ## Running lines -/

theorem Value.isSignal_iff {v : Value} :
    v.isSignal = true ↔ (∃ fault, v = .err fault) ∨ ∃ w, v = .ret w := by
  cases v <;> simp [Value.isSignal]

namespace Run

/-- The environment after some texts that are run one after the other. -/
def envAfter (limit : Nat) (env : Environment) (sources : List String) : Environment :=
  sources.foldl (fun env source => (ofSource limit source env).env) env

/-- The statements of a text end with an error or with a return. -/
def StopsEarly (limit : Nat) (env : Environment) (source : String) : Prop :=
  ∃ p, Program.parse source = .ok p ∧
    ((∃ fault, (Stmt.evalAll limit p.statements 0 env .null).value = .err fault) ∨
      ∃ v, (Stmt.evalAll limit p.statements 0 env .null).value = .ret v)

/-- Every one of some texts that are run one after the other comes to its end. -/
def AllFinish (limit : Nat) : Environment → List String → Prop
  | _, [] => True
  | env, source :: sources =>
      ¬StopsEarly limit env source ∧ AllFinish limit (ofSource limit source env).env sources

section Parsed

variable {limit : Nat} {env : Environment} {source : String} {p : Program}
  (hparse : Program.parse source = .ok p)
include hparse

theorem stopsEarly_iff :
    StopsEarly limit env source ↔
      (Stmt.evalAll limit p.statements 0 env .null).value.isSignal = true := by
  rw [Value.isSignal_iff]
  constructor
  · rintro ⟨q, hq, hstops⟩
    obtain rfl : p = q := Except.ok.inj (hparse.symm.trans hq)
    exact hstops
  · intro hstops
    exact ⟨p, hparse, hstops⟩

/-- A run yields what its statements yield, with a return taken off. -/
theorem result_of_evalAll :
    (ofSource limit source env).result =
      resultOf (Stmt.evalAll limit p.statements 0 env .null).value.unwrapReturn :=
  (ofSource_of_parse_eq_ok hparse limit env).1

theorem env_of_evalAll :
    (ofSource limit source env).env = (Stmt.evalAll limit p.statements 0 env .null).env :=
  (ofSource_of_parse_eq_ok hparse limit env).2

/-- A text that comes to its end does so whatever the value before it was. -/
theorem evalAll_of_not_stopsEarly
    (hfinish : ¬StopsEarly limit env source) {last : Value} (hlast : last.isSignal = false) :
    (Stmt.evalAll limit p.statements 0 env last).value.isSignal = false ∧
      (Stmt.evalAll limit p.statements 0 env last).env = (ofSource limit source env).env := by
  rw [stopsEarly_iff hparse, Bool.not_eq_true] at hfinish
  rw [env_of_evalAll hparse]
  by_cases hnil : p.statements = []
  · rw [hnil]
    exact ⟨hlast, rfl⟩
  · rw [Stmt.evalAll_of_ne_nil hnil last .null]
    exact ⟨hfinish, rfl⟩

end Parsed

/-- Behind texts that come to their ends, statements are evaluated in the
environment that these texts leave. -/
theorem exists_evalAll_append
    {limit : Nat} {env : Environment} {sources : List String} {programs : List Program}
    (hparse : List.Forall₂ (fun s p => Program.parse s = .ok p) sources programs)
    (hfinish : AllFinish limit env sources) {last : Value} (hlast : last.isSignal = false)
    (b : List Stmt) :
    ∃ v, v.isSignal = false ∧
      (Stmt.evalAll limit (programs.flatMap Program.statements ++ b) 0 env last).value =
        (Stmt.evalAll limit b 0 (envAfter limit env sources) v).value ∧
      (Stmt.evalAll limit (programs.flatMap Program.statements ++ b) 0 env last).env =
        (Stmt.evalAll limit b 0 (envAfter limit env sources) v).env := by
  induction hparse generalizing env last with
  | nil => exact ⟨last, hlast, rfl, rfl⟩
  | @cons s p sources programs hs _ ih =>
      obtain ⟨hsignal, henv⟩ := evalAll_of_not_stopsEarly hs hfinish.1 hlast
      rw [List.flatMap_cons, List.append_assoc, Stmt.evalAll_append hlast,
        Evaluation.andThen_of_not_isSignal hsignal, henv]
      exact ih hfinish.2 hsignal

theorem allFinish_append_iff
    {limit : Nat} {env : Environment} {before after : List String} :
    AllFinish limit env (before ++ after) ↔
      AllFinish limit env before ∧ AllFinish limit (envAfter limit env before) after := by
  induction before generalizing env with
  | nil => simp [AllFinish, envAfter]
  | cons s before ih => simp [AllFinish, ih, envAfter, and_assoc]

theorem resultOf_unwrapReturn_of_not_isSignal {v : Value} (hv : v.isSignal = false) :
    resultOf v.unwrapReturn = .ok v := by
  cases v with
  | ret v => cases hv
  | err fault => cases hv
  | _ => rfl

/-- Runs texts as the lines of a single one. -/
def ofLines (limit : Nat) (sources : List String) (env : Environment) : Run :=
  ofSource limit ("\n".intercalate sources) env

theorem exists_programs
    {sources : List String} (hparse : ∀ s ∈ sources, ∃ p, Program.parse s = .ok p) :
    ∃ programs, List.Forall₂ (fun s p => Program.parse s = .ok p) sources programs := by
  induction sources with
  | nil => exact ⟨[], .nil⟩
  | cons s sources ih =>
      obtain ⟨⟨p, hs⟩, hsources⟩ := List.forall_mem_cons.mp hparse
      obtain ⟨programs, hprograms⟩ := ih hsources
      exact ⟨p :: programs, .cons hs hprograms⟩

theorem flatMap_statements_eq_nil
    {sources : List String} {programs : List Program}
    (hparse : List.Forall₂ (fun s p => Program.parse s = .ok p) sources programs)
    (hempty : ∀ s ∈ sources, Program.parse s = .ok ⟨[]⟩) :
    programs.flatMap Program.statements = [] := by
  induction hparse with
  | nil => rfl
  | @cons s p sources programs hs _ ih =>
      obtain ⟨hs', hsources⟩ := List.forall_mem_cons.mp hempty
      obtain rfl : p = ⟨[]⟩ := Except.ok.inj (hs.symm.trans hs')
      rw [List.flatMap_cons, ih hsources]
      rfl

section Lines

variable {limit : Nat} {env : Environment} {sources : List String}
  (hparse : ∀ s ∈ sources, ∃ p, Program.parse s = .ok p)
  (hminus : ∀ s ∈ sources.tail, StartsWithoutMinus (TokenStream.ofSource s).tokens)
include hparse hminus

/-- Behind texts that come to their ends, the single text goes on with the
statements of the others in the environment that was reached. -/
theorem exists_ofLines_eq
    {before rest : List String} (hsources : sources = before ++ rest)
    (hfinish : AllFinish limit env before) :
    ∃ programs v, List.Forall₂ (fun s p => Program.parse s = .ok p) rest programs ∧
      v.isSignal = false ∧
      (ofLines limit sources env).result =
        resultOf (Stmt.evalAll limit (programs.flatMap Program.statements) 0
          (envAfter limit env before) v).value.unwrapReturn ∧
      (ofLines limit sources env).env =
        (Stmt.evalAll limit (programs.flatMap Program.statements) 0
          (envAfter limit env before) v).env := by
  subst hsources
  obtain ⟨hbefore, hrest⟩ := List.forall_mem_append.mp hparse
  obtain ⟨first, hfirst⟩ := exists_programs hbefore
  obtain ⟨programs, hprograms⟩ := exists_programs hrest
  have hjoined := parse_intercalate_newline (List.rel_append hfirst hprograms) hminus
  rw [List.flatMap_append] at hjoined
  obtain ⟨v, hv, hvalue, henv⟩ :=
    exists_evalAll_append hfirst hfinish (show Value.null.isSignal = false from rfl)
      (programs.flatMap Program.statements)
  refine ⟨programs, v, hprograms, hv, ?_, ?_⟩
  · rw [ofLines, result_of_evalAll hjoined, hvalue]
  · rw [ofLines, env_of_evalAll hjoined, henv]

theorem env_ofLines (hfinish : AllFinish limit env sources) :
    (ofLines limit sources env).env = envAfter limit env sources := by
  obtain ⟨programs, v, hprograms, -, -, henv⟩ :=
    exists_ofLines_eq hparse hminus (List.append_nil sources).symm hfinish
  cases hprograms
  exact henv

theorem result_ofLines_of_empty (hempty : ∀ s ∈ sources, Program.parse s = .ok ⟨[]⟩) :
    (ofLines limit sources env).result = .ok .null := by
  obtain ⟨programs, hprograms⟩ := exists_programs hparse
  have hjoined := parse_intercalate_newline hprograms hminus
  rw [flatMap_statements_eq_nil hprograms hempty] at hjoined
  exact result_of_evalAll hjoined

variable {before after : List String} {s : String} (hsources : sources = before ++ s :: after)
include hsources

/-- If only texts without statements follow, the value is that of the text before
them. -/
theorem exists_result_ofLines
    (hfinish : AllFinish limit env sources) (hs : Program.parse s ≠ .ok ⟨[]⟩)
    (hempty : ∀ u ∈ after, Program.parse u = .ok ⟨[]⟩) :
    ∃ v, (ofSource limit s (envAfter limit env before)).result = .ok v ∧
      (ofLines limit sources env).result = .ok v := by
  rw [hsources, allFinish_append_iff] at hfinish
  obtain ⟨programs, v, hprograms, -, hresult, -⟩ :=
    exists_ofLines_eq hparse hminus hsources hfinish.1
  cases hprograms with
  | @cons _ p _ programs hp hprograms =>
      have hne : p.statements ≠ [] := by
        rintro hnil
        exact hs (hp.trans (congrArg (fun b => Except.ok (Program.mk b)) hnil))
      have hvalue : (Stmt.evalAll limit p.statements 0 (envAfter limit env before)
          .null).value.isSignal = false :=
        (evalAll_of_not_stopsEarly hp hfinish.2.1 rfl).1
      rw [List.flatMap_cons, flatMap_statements_eq_nil hprograms hempty, List.append_nil,
        Stmt.evalAll_of_ne_nil hne v .null, resultOf_unwrapReturn_of_not_isSignal hvalue] at hresult
      refine ⟨_, ?_, hresult⟩
      rw [result_of_evalAll hp, resultOf_unwrapReturn_of_not_isSignal hvalue]

/-- What follows a text that stops early is not evaluated. -/
theorem ofLines_of_stopsEarly
    (hfinish : AllFinish limit env before)
    (hstops : StopsEarly limit (envAfter limit env before) s) :
    (ofLines limit sources env).result =
        (ofSource limit s (envAfter limit env before)).result ∧
      (ofLines limit sources env).env = (ofSource limit s (envAfter limit env before)).env := by
  obtain ⟨programs, v, hprograms, hv, hresult, henv⟩ :=
    exists_ofLines_eq hparse hminus hsources hfinish
  cases hprograms with
  | @cons _ p _ programs hp hprograms =>
      rw [stopsEarly_iff hp] at hstops
      have hne : p.statements ≠ [] := by
        intro hnil
        rw [hnil] at hstops
        cases hstops
      rw [Stmt.evalAll_of_ne_nil hne .null v] at hstops
      rw [List.flatMap_cons, Stmt.evalAll_append hv, Evaluation.andThen_of_isSignal hstops,
        Stmt.evalAll_of_ne_nil hne v .null] at hresult henv
      rw [result_of_evalAll hp, env_of_evalAll hp]
      exact ⟨hresult, henv⟩

end Lines

end Run

/-- Texts without errors, of which only the first may start with a minus sign, are
run one after the other and as the lines of a single text.  If all of them come
to their ends, the single text leaves the same environment and has the value of
the last text with a statement.  Otherwise it ends like the first text that stops
early. -/
theorem ofLines_eq_last_or_first_stop
    (limit : Nat) (env : Environment) (sources : List String)
    (hparse : ∀ s ∈ sources, ∃ p, Program.parse s = .ok p)
    (hminus : ∀ s ∈ sources.tail, StartsWithoutMinus (TokenStream.ofSource s).tokens) :
    (Run.AllFinish limit env sources →
      (Run.ofLines limit sources env).env = Run.envAfter limit env sources ∧
      ((∀ s ∈ sources, Program.parse s = .ok ⟨[]⟩) →
        (Run.ofLines limit sources env).result = .ok .null) ∧
      ∀ before s after, sources = before ++ s :: after → Program.parse s ≠ .ok ⟨[]⟩ →
        (∀ u ∈ after, Program.parse u = .ok ⟨[]⟩) →
        ∃ v, (Run.ofSource limit s (Run.envAfter limit env before)).result = .ok v ∧
          (Run.ofLines limit sources env).result = .ok v) ∧
    (∀ before s after, sources = before ++ s :: after → Run.AllFinish limit env before →
      Run.StopsEarly limit (Run.envAfter limit env before) s →
      (Run.ofLines limit sources env).result =
        (Run.ofSource limit s (Run.envAfter limit env before)).result ∧
      (Run.ofLines limit sources env).env =
        (Run.ofSource limit s (Run.envAfter limit env before)).env) := by
  constructor
  · intro hfinish
    refine ⟨?_, ?_, ?_⟩
    · exact Run.env_ofLines hparse hminus hfinish
    · exact Run.result_ofLines_of_empty hparse hminus
    · intro before s after hsources hs hempty
      exact Run.exists_result_ofLines hparse hminus hsources hfinish hs hempty
  · intro before s after hsources hfinish hstops
    exact Run.ofLines_of_stopsEarly hparse hminus hsources hfinish hstops

/-- A first line with a minus sign, a blank second one, a return in the third and
a fourth one that is not evaluated. -/
theorem ofLines_of_return_on_third_line :
    ∃ (before after : List String) (s : String) (env : Environment),
      before = ["-1; let a = 2", " "] ∧ s = "if (a > 1) \x7b let b = a; return b \x7d" ∧
      after = ["let c = b"] ∧ env = Environment.empty.enclosed ∧
      (∀ u ∈ before ++ s :: after, ∃ p, Program.parse u = .ok p) ∧
      (∀ u ∈ (before ++ s :: after).tail, StartsWithoutMinus (TokenStream.ofSource u).tokens) ∧
      Run.AllFinish 9 env before ∧ Run.StopsEarly 9 (Run.envAfter 9 env before) s ∧
      (Run.ofLines 9 before env).result = .ok (.int ⟨2, by decide⟩) ∧
      (Run.ofLines 9 (before ++ s :: after) env).result =
        (Run.ofSource 9 s (Run.envAfter 9 env before)).result ∧
      (Run.ofLines 9 (before ++ s :: after) env).env =
        (env.set "a" (.int ⟨2, by decide⟩)).set "b" (.int ⟨2, by decide⟩) := by
  obtain ⟨before, hbefore⟩ : ∃ before, before = ["-1; let a = 2", " "] := ⟨_, rfl⟩
  obtain ⟨s, hs⟩ : ∃ s, s = "if (a > 1) \x7b let b = a; return b \x7d" := ⟨_, rfl⟩
  obtain ⟨after, hafter⟩ : ∃ after, after = ["let c = b"] := ⟨_, rfl⟩
  obtain ⟨env, henv⟩ : ∃ env, env = Environment.empty.enclosed := ⟨_, rfl⟩
  have hparse : ∀ u ∈ before ++ s :: after, ∃ p, Program.parse u = .ok p := by
    subst hbefore hs hafter
    simp only [List.cons_append, List.nil_append, List.forall_mem_cons]
    exact ⟨⟨_, rfl⟩, ⟨_, rfl⟩, ⟨_, rfl⟩, ⟨_, rfl⟩, List.forall_mem_nil _⟩
  have hminus : ∀ u ∈ (before ++ s :: after).tail,
      StartsWithoutMinus (TokenStream.ofSource u).tokens := by
    subst hbefore hs hafter
    unfold StartsWithoutMinus
    decide
  have hfinish : Run.AllFinish 9 env before := by
    subst hbefore henv
    refine ⟨?_, ?_, trivial⟩
    all_goals
      rw [Run.stopsEarly_iff rfl]
      decide
  have hstops : Run.StopsEarly 9 (Run.envAfter 9 env before) s := by
    subst hbefore hs henv
    rw [Run.stopsEarly_iff rfl]
    decide
  obtain ⟨hresult, hend⟩ := (ofLines_eq_last_or_first_stop 9 env _ hparse hminus).2
    before s after rfl hfinish hstops
  refine ⟨before, after, s, env, hbefore, hs, hafter, henv, hparse, hminus, hfinish, hstops,
    ?_, hresult, hend.trans ?_⟩
  all_goals
    subst hbefore hs henv
    rfl

end LetLang
