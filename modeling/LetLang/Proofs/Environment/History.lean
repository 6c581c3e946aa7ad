import LetLang.Environment
import Mathlib.Data.List.Induction
import Mathlib.Data.List.Infix
import Mathlib.Data.List.Nodup

/-!
# Environments and the definitions behind them

Scopes are entered and left, and names are defined in the innermost one.  The plain
account of this is a stack of logs: for each scope that is open, the definitions
made in it so far, in order.  An environment is compared with that account, over
all sequences of such steps.  A look-up gives the latest definition in the
innermost scope that has one, a listing has each name once and at the place of its
first definition, and leaving a scope undoes what happened since it was entered.
-/

namespace LetLang

/-! ## Scopes by their names and values -/

namespace Scope

theorem get?_eq_none_iff {s : Scope} {x : String} : s.get? x = none ↔ x ∉ s.names := by
  rw [get?, List.lookup_eq_none_iff]
  constructor
  · intro h hx
    obtain ⟨b, hb, rfl⟩ := List.mem_map.mp hx
    exact absurd (h b hb) (by simp)
  · intro h b hb
    rw [bne_iff_ne]
    rintro rfl
    exact h (List.mem_map_of_mem hb)

theorem get?_of_mem_bindings {s : Scope} {b : String × Value} (hb : b ∈ s.bindings) :
    s.get? b.1 = some b.2 := by
  obtain ⟨before, after, hsplit⟩ := List.append_of_mem hb
  have hnodup := s.nodup
  rw [hsplit, List.map_append, List.map_cons, List.nodup_append] at hnodup
  rw [get?, List.lookup_eq_some_iff]
  refine ⟨before, after, hsplit, ?_⟩
  intro p hp
  rw [bne_iff_ne]
  exact (hnodup.2.2 p.1 (List.mem_map_of_mem hp) b.1 List.mem_cons_self).symm

theorem map_names_get? (s : Scope) :
    s.names.map (fun x => (x, s.get? x)) = s.bindings.map fun b => (b.1, some b.2) := by
  rw [names, List.map_map]
  apply List.map_congr_left
  intro b hb
  rw [Function.comp_apply, get?_of_mem_bindings hb]

/-- A scope is determined by its names, in their order, and by their values. -/
theorem ext_names_get?
    {s s' : Scope} (hnames : s.names = s'.names) (hget : ∀ x, s.get? x = s'.get? x) :
    s = s' := by
  have hinjective : ∀ b b' : String × Value, (b.1, some b.2) = (b'.1, some b'.2) → b = b' := by
    intro b b' h
    obtain ⟨hname, hvalue⟩ := Prod.mk.inj h
    exact Prod.ext hname (Option.some.inj hvalue)
  have hbindings : s.bindings = s'.bindings := by
    apply List.map_inj_right hinjective |>.mp
    rw [← map_names_get?, ← map_names_get?, hnames]
    simp only [hget]
  cases s
  cases s'
  simpa using hbindings

end Scope

/-! ## Logs -/

/-- Definitions in the order in which they were made. -/
abbrev Log := List (String × Value)

namespace Log

/-- The value in the latest definition of a name. -/
def latest? (log : Log) (x : String) : Option Value :=
  (log.filter fun d => d.1 = x).getLast?.map Prod.snd

/-- The defined names, each at the place of its first definition. -/
def names (log : Log) : List String :=
  (log.map Prod.fst).eraseDups

theorem latest?_concat (log : Log) (x y : String) (v : Value) :
    latest? (log ++ [(x, v)]) y = if y = x then some v else log.latest? y := by
  by_cases h : y = x
  · subst h
    simp [latest?]
  · have hx : ¬x = y := fun hxy => h hxy.symm
    simp [latest?, h, hx]

end Log

theorem eraseDups_concat (l : List String) (x : String) :
    (l ++ [x]).eraseDups = if x ∈ l then l.eraseDups else l.eraseDups ++ [x] := by
  rw [List.eraseDups_append]
  by_cases h : x ∈ l
  · simp [List.removeAll, h]
  · simp [List.removeAll, h, List.eraseDups_cons]

namespace Scope

/-- The scope in which the definitions of a log were made. -/
def ofLog (log : Log) : Scope :=
  log.foldl (fun s d => s.set d.1 d.2) .empty

theorem ofLog_concat (log : Log) (x : String) (v : Value) :
    ofLog (log ++ [(x, v)]) = (ofLog log).set x v := by
  simp [ofLog]

theorem get?_ofLog (log : Log) (x : String) : (ofLog log).get? x = log.latest? x := by
  induction log using List.reverseRecOn with
  | nil => rfl
  | append_singleton log d ih => rw [ofLog_concat, get?_set, ih, Log.latest?_concat]

theorem names_ofLog (log : Log) : (ofLog log).names = log.names := by
  induction log using List.reverseRecOn with
  | nil => rfl
  | append_singleton log d ih =>
      rw [ofLog_concat, names_set, ih, Log.names, Log.names, List.map_append, List.map_singleton,
        eraseDups_concat]
      simp only [List.mem_eraseDups]

end Scope

/-! ## Names over several scopes -/

namespace Environment

theorem mem_addNames {seen names : List String} {x : String} :
    x ∈ addNames seen names ↔ x ∈ seen ∨ x ∈ names := by
  induction names generalizing seen with
  | nil => simp [addNames]
  | cons y names ih =>
      change x ∈ addNames (if y ∈ seen then seen else seen ++ [y]) names ↔ _
      rw [ih]
      split
      · next hy =>
        constructor
        · exact Or.imp_right (List.mem_cons_of_mem y)
        · rintro (hx | hx)
          · exact Or.inl hx
          · rcases List.mem_cons.mp hx with rfl | hx
            · exact Or.inl hy
            · exact Or.inr hx
      · simp [or_assoc]

theorem addNames_append (seen a b : List String) :
    addNames seen (a ++ b) = addNames (addNames seen a) b :=
  List.foldl_append

theorem addNames_concat (seen names : List String) (x : String) :
    addNames seen (names ++ [x]) =
      if x ∈ addNames seen names then addNames seen names else addNames seen names ++ [x] :=
  addNames_append seen names [x]

theorem nodup_addNames {seen : List String} (hseen : seen.Nodup) (names : List String) :
    (addNames seen names).Nodup := by
  induction names using List.reverseRecOn with
  | nil => exact hseen
  | append_singleton names x ih =>
      rw [addNames_concat]
      split
      · exact ih
      · next hx => exact List.nodup_append.mpr ⟨ih, List.nodup_singleton x, by grind⟩

theorem addNames_nil (names : List String) : addNames [] names = names.eraseDups := by
  induction names using List.reverseRecOn with
  | nil => rfl
  | append_singleton names x ih =>
      rw [addNames_concat, eraseDups_concat, ih]
      simp only [List.mem_eraseDups]

/-- A name that comes again adds nothing, so it can be left out before. -/
theorem addNames_eraseDups (seen names : List String) :
    addNames seen names.eraseDups = addNames seen names := by
  induction names using List.reverseRecOn with
  | nil => rfl
  | append_singleton names x ih =>
      rw [eraseDups_concat, addNames_concat]
      split
      · next hx => rw [ih, if_pos (mem_addNames.mpr (Or.inr hx))]
      · rw [addNames_concat, ih]

theorem mem_names_iff {env : Environment} {x : String} :
    x ∈ env.names ↔ ∃ s ∈ env.scopes, x ∈ s.names := by
  rw [names]
  induction env.scopes with
  | nil => simp
  | cons s scopes ih =>
      rw [List.foldr_cons, mem_addNames, ih]
      simp [or_comm]

theorem nodup_names (env : Environment) : env.names.Nodup := by
  rw [names]
  induction env.scopes with
  | nil => exact List.nodup_nil
  | cons s scopes ih => exact nodup_addNames ih s.names

theorem isSome_get?_iff {env : Environment} {x : String} :
    (env.get? x).isSome = true ↔ x ∈ env.names := by
  rw [mem_names_iff, get?, List.findSome?_isSome_iff]
  apply exists_congr
  intro s
  apply and_congr_right
  intro _
  rw [Option.isSome_iff_ne_none, ne_eq, Scope.get?_eq_none_iff, not_not]

end Environment

/-! ## Histories -/

/-- The logs of all scopes that are open. -/
structure History where
  /-- The log of the innermost scope. -/
  current : Log
  /-- The logs of the scopes around it, from the inside outward. -/
  enclosing : List Log

namespace History

/-- A single scope in which nothing was defined. -/
def empty : History :=
  ⟨[], []⟩

/-- All logs, from the inside outward. -/
def logs (h : History) : List Log :=
  h.current :: h.enclosing

/-- The latest definition of a name in the innermost scope that has one. -/
def latest? (h : History) (x : String) : Option Value :=
  h.logs.findSome? fun log => log.latest? x

/-- The names defined in any scope, by first definition, where all definitions of an
outer scope come before those of an inner one. -/
def names (h : History) : List String :=
  Log.names h.logs.reverse.flatten

/-- The environment that a history leads to. -/
def environment (h : History) : Environment :=
  ⟨.ofLog h.current, h.enclosing.map .ofLog⟩

theorem scopes_environment (h : History) : h.environment.scopes = h.logs.map .ofLog := rfl

/-- What an environment shows is what its history says. -/
structure Describes (h : History) (env : Environment) : Prop where
  get? : ∀ x, env.get? x = h.latest? x
  bindings : env.innermost.bindings.map (fun b => (b.1, some b.2)) =
    h.current.names.map fun x => (x, h.current.latest? x)
  size : env.size = h.current.names.length
  contains : ∀ x, (env.contains x = true ↔ (env.get? x).isSome = true) ∧
    (env.contains x = true ↔ x ∈ env.names)
  nodup_names : env.names.Nodup
  names : env.names = h.names

theorem names_environment (h : History) : h.environment.names = h.names := by
  rw [Environment.names, names, scopes_environment]
  induction h.logs with
  | nil => rfl
  | cons log logs ih =>
      rw [List.map_cons, List.foldr_cons, ih, Scope.names_ofLog, Log.names, Log.names, Log.names,
        Environment.addNames_eraseDups, ← Environment.addNames_nil, ← Environment.addNames_nil,
        ← Environment.addNames_append, List.reverse_cons, List.flatten_append, List.map_append]
      simp

theorem describes_environment (h : History) : h.Describes h.environment where
  get? x := by
    rw [Environment.get?, scopes_environment, List.findSome?_map, latest?]
    apply congrArg (h.logs.findSome? ·)
    funext log
    exact Scope.get?_ofLog log x
  bindings := by
    have hnames : h.environment.innermost.names = h.current.names := Scope.names_ofLog _
    rw [← Scope.map_names_get?, hnames]
    apply List.map_congr_left
    intro x _
    exact congrArg (Prod.mk x) (Scope.get?_ofLog h.current x)
  size := by
    rw [← Scope.names_ofLog, Scope.names, List.length_map]
    rfl
  contains x := ⟨Iff.rfl, Environment.isSome_get?_iff⟩
  nodup_names := h.environment.nodup_names
  names := h.names_environment

end History

/-! ## Steps -/

namespace Environment

/-- What can be done to an environment. -/
inductive Step where
  /-- Defines a name in the innermost scope. -/
  | define (name : String) (value : Value)
  /-- Enters a new scope. -/
  | push
  /-- Leaves the innermost scope, which has to stand in another one. -/
  | pop
deriving DecidableEq

namespace Step

/-- The environment after a step. -/
def perform (env : Environment) : Step → Option Environment
  | define x v => some (env.set x v)
  | push => some env.enclosed
  | pop => env.outer?

/-- The environment after some steps in a row. -/
def performAll (env : Environment) (steps : List Step) : Option Environment :=
  steps.foldlM perform env

/-- The history after a step. -/
def note (h : History) : Step → Option History
  | define x v => some ⟨h.current ++ [(x, v)], h.enclosing⟩
  | push => some ⟨[], h.logs⟩
  | pop =>
      match h.enclosing with
      | [] => none
      | log :: logs => some ⟨log, logs⟩

/-- The history after some steps in a row. -/
def noteAll (h : History) (steps : List Step) : Option History :=
  steps.foldlM note h

/-- No scope is left that was not entered before. -/
def Matched (steps : List Step) : Prop :=
  ∀ first, first <+: steps → first.count pop ≤ first.count push

/-- Every scope that is entered is left again, and no other one. -/
structure Balanced (steps : List Step) : Prop where
  matched : Matched steps
  closed : steps.count pop = steps.count push

theorem performAll_cons (env : Environment) (step : Step) (steps : List Step) :
    performAll env (step :: steps) = (perform env step).bind (performAll · steps) :=
  List.foldlM_cons

theorem performAll_append (env : Environment) (a b : List Step) :
    performAll env (a ++ b) = (performAll env a).bind (performAll · b) :=
  List.foldlM_append

theorem map_environment_note (h : History) (step : Step) :
    (note h step).map History.environment = perform h.environment step := by
  cases step with
  | define x v =>
      have hset : Scope.ofLog (h.current ++ [(x, v)]) = (Scope.ofLog h.current).set x v :=
        Scope.ofLog_concat h.current x v
      simp [note, perform, History.environment, hset, set]
  | push => rfl
  | pop =>
      rw [note, perform, outer?, History.environment]
      cases h.enclosing with
      | nil => rfl
      | cons log logs => rfl

/-- Keeping a history and performing the steps go together, and if one of them is
stuck, so is the other. -/
theorem map_environment_noteAll (h : History) (steps : List Step) :
    (noteAll h steps).map History.environment = performAll h.environment steps := by
  induction steps generalizing h with
  | nil => rfl
  | cons step steps ih =>
      rw [performAll_cons, ← map_environment_note, noteAll, List.foldlM_cons]
      cases note h step with
      | none => rfl
      | some h' => exact ih h'

/-! ## How many scopes are open -/

theorem depth_of_perform
    {env env' : Environment} {step : Step} (h : perform env step = some env') :
    env'.depth + [step].count pop = env.depth + [step].count push := by
  cases step with
  | define x v =>
      cases h
      rfl
  | push =>
      cases h
      rfl
  | pop =>
      rw [perform, outer?] at h
      cases henclosing : env.enclosing with
      | nil =>
          rw [henclosing] at h
          cases h
      | cons s rest =>
          rw [henclosing] at h
          cases h
          rw [depth, depth, scopes, scopes, henclosing]
          rfl

theorem depth_of_performAll
    {env env' : Environment} {steps : List Step} (h : performAll env steps = some env') :
    env'.depth + steps.count pop = env.depth + steps.count push := by
  induction steps generalizing env with
  | nil =>
      cases h
      rfl
  | cons step steps ih =>
      rw [performAll_cons] at h
      obtain ⟨env₁, hstep, hsteps⟩ := Option.bind_eq_some_iff.mp h
      have hfirst := depth_of_perform hstep
      have hrest := ih hsteps
      rw [← List.singleton_append, List.count_append, List.count_append]
      omega

theorem matched_of_performAll
    {env : Environment} {steps : List Step} (h : performAll .empty steps = some env) :
    Matched steps := by
  rintro first ⟨rest, rfl⟩
  rw [performAll_append] at h
  obtain ⟨env₁, hfirst, -⟩ := Option.bind_eq_some_iff.mp h
  have hdepth := depth_of_performAll hfirst
  have hpos : 1 ≤ env₁.depth := Nat.le_add_left 1 env₁.enclosing.length
  have hempty : Environment.empty.depth = 1 := rfl
  omega

/-! ## The scopes below stay as they are -/

section Frame

variable {base inner : List Scope} {env : Environment}

/-- A step that does not leave more than the inner scopes keeps those below. -/
theorem exists_perform
    {step : Step} (hscopes : env.scopes = inner ++ base)
    (hinner : [step].count pop < inner.length + [step].count push) (hne : inner ≠ []) :
    ∃ env' inner', perform env step = some env' ∧ env'.scopes = inner' ++ base ∧
      inner'.length + [step].count pop = inner.length + [step].count push := by
  obtain ⟨s, rest, rfl⟩ := List.exists_cons_of_ne_nil hne
  obtain ⟨-, henclosing⟩ := List.cons.inj hscopes
  cases step with
  | define x v =>
      refine ⟨_, env.innermost.set x v :: rest, rfl, ?_, rfl⟩
      exact congrArg _ henclosing
  | push =>
      refine ⟨_, .empty :: s :: rest, rfl, ?_, rfl⟩
      exact congrArg _ hscopes
  | pop =>
      cases rest with
      | nil => exact absurd hinner (Nat.lt_irrefl 1)
      | cons s' rest =>
          refine ⟨⟨s', rest ++ base⟩, s' :: rest, ?_, rfl, rfl⟩
          rw [perform, outer?, henclosing]
          rfl

theorem exists_performAll
    {steps : List Step} (hscopes : env.scopes = inner ++ base)
    (hinner : ∀ first, first <+: steps → first.count pop < inner.length + first.count push) :
    ∃ env' inner', performAll env steps = some env' ∧ env'.scopes = inner' ++ base ∧
      inner'.length + steps.count pop = inner.length + steps.count push := by
  induction steps generalizing env inner with
  | nil => exact ⟨env, inner, rfl, hscopes, rfl⟩
  | cons step steps ih =>
      have hne : inner ≠ [] := List.ne_nil_of_length_pos (hinner [] (List.nil_prefix))
      have hstep := hinner [step] (List.prefix_append [step] steps)
      obtain ⟨env₁, inner₁, hperform, hscopes₁, hcount₁⟩ := exists_perform hscopes hstep hne
      have hinner₁ : ∀ first, first <+: steps →
          first.count pop < inner₁.length + first.count push := by
        intro first hfirst
        have hmore := hinner (step :: first) ((List.prefix_append_right_inj [step]).mpr hfirst)
        rw [← List.singleton_append, List.count_append, List.count_append] at hmore
        omega
      obtain ⟨env', inner', hall, hscopes', hcount'⟩ := ih hscopes₁ hinner₁
      refine ⟨env', inner', ?_, hscopes', ?_⟩
      · rw [performAll_cons, hperform]
        exact hall
      · rw [← List.singleton_append, List.count_append, List.count_append]
        omega

end Frame

theorem exists_performAll_of_matched {steps : List Step} (h : Matched steps) :
    ∃ env, performAll .empty steps = some env := by
  have hscopes : Environment.empty.scopes = [Scope.empty] ++ [] := rfl
  obtain ⟨env, -, henv, -⟩ := exists_performAll hscopes fun first hfirst =>
    Nat.lt_one_add_iff.mpr (h first hfirst)
  exact ⟨env, henv⟩

/-- Entering a scope and leaving it again undoes everything in between. -/
theorem performAll_balanced
    (env : Environment) {between : List Step} (h : Balanced between) :
    performAll env (push :: (between ++ [pop])) = some env := by
  have henclosed : env.enclosed.scopes = [Scope.empty] ++ env.scopes := rfl
  obtain ⟨env', inner, hall, hscopes, hcount⟩ := exists_performAll henclosed fun first hfirst =>
    Nat.lt_one_add_iff.mpr (h.matched first hfirst)
  have hlength : inner.length = 1 := by
    have hclosed := h.closed
    rw [List.length_singleton] at hcount
    omega
  obtain ⟨s, rfl⟩ := List.length_eq_one_iff.mp hlength
  obtain ⟨-, henclosing⟩ := List.cons.inj hscopes
  have hpush : perform env push = some env.enclosed := rfl
  have hpop : performAll env' [pop] = some env := by
    change env'.outer? >>= pure = some env
    rw [outer?, henclosing]
    rfl
  rw [performAll_cons, hpush, Option.bind_some, performAll_append, hall, Option.bind_some, hpop]

end Step

end Environment

open Environment

/-- Steps can be performed one after the other, starting from the empty environment,
exactly if no scope is left that was not entered.  Then the environment shows what
the logs of its open scopes say, it has one scope more than were entered and not
left, and from there any balanced steps inside a new scope lead back to it. -/
theorem environment_refines_history (steps : List Step) :
    ((∃ env, Step.performAll .empty steps = some env) ↔ Step.Matched steps) ∧
    ∀ env, Step.performAll .empty steps = some env →
      (∃ h, Step.noteAll .empty steps = some h ∧ h.Describes env) ∧
      env.depth + steps.count .pop = 1 + steps.count .push ∧
      ∀ between, Step.Balanced between →
        Step.performAll env (.push :: (between ++ [.pop])) = some env := by
  refine ⟨⟨?_, Step.exists_performAll_of_matched⟩, ?_⟩
  · rintro ⟨env, henv⟩
    exact Step.matched_of_performAll henv
  · intro env henv
    refine ⟨?_, Step.depth_of_performAll henv, ?_⟩
    · have hhistory := Step.map_environment_noteAll .empty steps
      rw [show History.empty.environment = .empty from rfl, henv] at hhistory
      obtain ⟨h, hnote, rfl⟩ := Option.map_eq_some_iff.mp hhistory
      exact ⟨h, hnote, h.describes_environment⟩
    · intro between hbetween
      exact Step.performAll_balanced env hbetween

/-- A name is defined again in an inner scope, and a scope between two definitions
leaves nothing behind. -/
theorem environment_refines_history_shadowing :
    ∃ (steps between : List Step) (env : Environment) (h : History),
      steps = [.define "x" .null, .define "y" .null, .push, .define "y" (.bool true), .push,
        .define "w" .null, .pop, .define "z" .null, .define "y" (.bool false)] ∧
      between = [.define "x" (.bool true), .push, .define "y" .null, .pop] ∧
      Step.performAll .empty steps = some env ∧ Step.noteAll .empty steps = some h ∧
      h.Describes env ∧ env.get? "y" = some (.bool false) ∧ env.names = ["x", "y", "z"] ∧
      env.depth + steps.count .pop = 1 + steps.count .push ∧ env.depth = 2 ∧
      Step.Balanced between ∧
      Step.performAll env (.push :: (between ++ [.pop])) = some env := by
  have hbalanced : Step.Balanced
      [.define "x" (.bool true), .push, .define "y" .null, .pop] := by
    refine ⟨?_, rfl⟩
    intro first hfirst
    rw [← List.mem_inits] at hfirst
    revert first
    decide
  obtain ⟨⟨h, hnote, hdescribes⟩, hdepth, hundone⟩ :=
    (environment_refines_history [.define "x" .null, .define "y" .null, .push,
      .define "y" (.bool true), .push, .define "w" .null, .pop, .define "z" .null,
      .define "y" (.bool false)]).2 _ rfl
  exact ⟨_, _, _, h, rfl, rfl, rfl, hnote, hdescribes, rfl, rfl, hdepth, rfl, hbalanced,
    hundone _ hbalanced⟩

end LetLang
