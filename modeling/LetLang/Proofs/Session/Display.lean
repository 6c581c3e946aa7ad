import LetLang.Proofs.Evaluation.Lookups
import LetLang.Proofs.Evaluation.Wording
import LetLang.Proofs.Grammar.Concatenation
import LetLang.Proofs.Parser.Wording
import LetLang.Proofs.Rendering.UniqueReading
import LetLang.Session

/-!
# What a session shows

A session starts without bindings and evaluates source texts.  Its answer to a text
is a single line, or one line for each syntax error.  Its listing has one line for
each binding, and all that can be said about the bindings can be read off it: two
sessions with the same listing have the same environment.

None of this holds in every environment.  It rests on what the evaluations of source
texts leave behind, a single scope in which plain values are bound to proper names.
-/

namespace LetLang

/-! ## Answers -/

theorem Program.isWellFormed_of_parse_eq_ok
    {source : String} {p : Program} (h : parse source = .ok p) : p.isWellFormed = true := by
  obtain ⟨s, hvalue, -, -⟩ := reads_of_parse_eq_ok h
  exact ((Parser.Yields.program _ _ (TokenStream.isSpelled_ofSource source)).2 p
    hvalue).areWellFormed

theorem Integer.render_ne_empty (n : Integer) : n.render ≠ "" := by
  intro h
  have hparse := parse?_render n
  rw [h] at hparse
  cases hparse

theorem Value.isLine_render_and_ne_of_isPlain
    {v : Value} (hv : v.isPlain = true) : IsLine v.render ∧ v.render ≠ "" := by
  cases v with
  | int n => exact ⟨n.isLine_render, n.render_ne_empty⟩
  | bool b => cases b <;> decide
  | null => decide
  | ret v => cases hv
  | err fault => cases hv

theorem Value.isLine_render_and_ne
    {v : Value} (hv : v.isWorded = true) : IsLine v.render ∧ v.render ≠ "" := by
  cases v with
  | ret v => exact @isLine_render_and_ne_of_isPlain v hv
  | err fault =>
      refine ⟨IsLine.append (by decide) (Fault.isLine_message hv), fun h => ?_⟩
      exact absurd (String.append_eq_empty_iff.mp h).1 (by decide)
  | _ => exact isLine_render_and_ne_of_isPlain rfl

namespace Run

variable {limit : Nat} {source : String} {env : Environment}

theorem render_of_parse_eq_ok {p : Program} (h : Program.parse source = .ok p) :
    (ofSource limit source env).render = (p.eval limit env).value.render := by
  rw [render, (ofSource_of_parse_eq_ok h limit env).1]
  cases (p.eval limit env).value with
  | err fault => rfl
  | _ => rfl

theorem render_of_parse_eq_error
    {errors : List SyntaxError} (h : Program.parse source = .error errors) :
    (ofSource limit source env).render =
      "\n".intercalate (errors.map fun e => "syntax error: " ++ e.render) := by
  rw [render, (ofSource_of_parse_eq_error h limit env).1]
  rfl

theorem isTidy_env_ofSource
    (limit : Nat) (source : String) (henv : env.IsTidy) :
    (ofSource limit source env).env.IsTidy := by
  cases hparse : Program.parse source with
  | error errors =>
      rw [(ofSource_of_parse_eq_error hparse limit env).2]
      exact henv
  | ok p =>
      rw [(ofSource_of_parse_eq_ok hparse limit env).2]
      exact (Evaluation.IsTidy.program limit (Program.isWellFormed_of_parse_eq_ok hparse) henv).env

end Run

namespace Session

variable {s : Session} {source : String}

/-- A text without syntax errors is answered by a line with something on it. -/
theorem isLine_eval_and_ne
    (henv : s.env.IsTidy) {p : Program} (h : Program.parse source = .ok p) :
    IsLine (s.eval source).1 ∧ (s.eval source).1 ≠ "" := by
  have htidy := Evaluation.IsTidy.program s.limit (Program.isWellFormed_of_parse_eq_ok h) henv
  have hshown : (s.eval source).1 = (p.eval s.limit s.env).value.render :=
    Run.render_of_parse_eq_ok h
  rw [hshown]
  exact Value.isLine_render_and_ne htidy.value

/-- A text with syntax errors is answered by a line for each of them. -/
theorem lines_eval_of_parse_eq_error
    {errors : List SyntaxError} (h : Program.parse source = .error errors) :
    lines (s.eval source).1 = errors.map fun e => "syntax error: " ++ e.render := by
  have hshown : (s.eval source).1 =
      "\n".intercalate (errors.map fun e => "syntax error: " ++ e.render) :=
    Run.render_of_parse_eq_error h
  have hne : errors ≠ [] := (Program.errors_of_parse_eq_error h).1
  rw [hshown]
  apply lines_intercalate
  · simpa using hne
  · intro text htext
    obtain ⟨e, he, rfl⟩ := List.mem_map.mp htext
    exact IsLine.append (by decide) (Program.isLine_of_parse_eq_error h e he)

/-! ## Sessions that are reached -/

/-- The session after some source texts. -/
def evalAll (s : Session) (sources : List String) : Session :=
  sources.foldl (fun s source => (s.eval source).2) s

/-- The definitions that a source text makes, in order. -/
def definitionsIn (s : Session) (source : String) : Log :=
  match Program.parse source with
  | .error _ => []
  | .ok p => (p.evalLogging s.limit s.env).definitions

/-- The definitions that some source texts make, in order. -/
def definitions (s : Session) : List String → Log
  | [] => []
  | source :: sources => s.definitionsIn source ++ (s.eval source).2.definitions sources

theorem env_eval (s : Session) (source : String) :
    (s.eval source).2.env = s.env.defineAll (s.definitionsIn source) := by
  rw [definitionsIn]
  cases hparse : Program.parse source with
  | error errors => exact (Run.ofSource_of_parse_eq_error hparse s.limit s.env).2
  | ok p =>
      exact (Run.ofSource_of_parse_eq_ok hparse s.limit s.env).2.trans
        (Logged.Accounts.program s.limit p s.env).replayed

theorem env_evalAll (s : Session) (sources : List String) :
    (s.evalAll sources).env = s.env.defineAll (s.definitions sources) := by
  induction sources generalizing s with
  | nil => rfl
  | cons source sources ih =>
      have hrest : (s.evalAll (source :: sources)).env = _ := ih (s.eval source).2
      rw [hrest, env_eval, definitions, Environment.defineAll, Environment.defineAll,
        Environment.defineAll, List.foldl_append]

theorem isTidy_evalAll (henv : s.env.IsTidy) (sources : List String) :
    (s.evalAll sources).env.IsTidy := by
  induction sources generalizing s with
  | nil => exact henv
  | cons source sources ih => exact ih (Run.isTidy_env_ofSource s.limit source henv)

end Session

/-! ## Listings -/

/-- The line of a listing that shows a binding. -/
def Session.bindingLine (b : String × Value) : String :=
  b.1 ++ " = " ++ b.2.render

/-- A plain value under a proper name. -/
def IsTidyBinding (b : String × Value) : Prop :=
  isName b.1 = true ∧ b.2.isPlain = true

theorem Value.parse?_render {v : Value} (hv : v.isPlain = true) :
    Integer.parse? v.render = v.int? := by
  cases v with
  | int n => exact n.parse?_render
  | bool b => cases b <;> decide
  | null => decide
  | ret v => cases hv
  | err fault => cases hv

theorem Value.eq_of_render_eq
    {v w : Value} (hv : v.isPlain = true) (hw : w.isPlain = true) (h : v.render = w.render) :
    v = w := by
  have hint : v.int? = w.int? := by
    rw [← parse?_render hv, h, parse?_render hw]
  cases v with
  | int n =>
      cases w with
      | int m => exact congrArg Value.int (Option.some.inj hint)
      | _ => cases hint
  | bool b =>
      revert h
      cases w with
      | int m => cases hint
      | bool c => cases b <;> cases c <;> decide
      | null => cases b <;> decide
      | _ => cases hw
  | null =>
      revert h
      cases w with
      | int m => cases hint
      | bool c => cases c <;> decide
      | null => exact fun _ => rfl
      | _ => cases hw
  | _ => cases hv

namespace Session

theorem toList_bindingLine (b : String × Value) :
    (bindingLine b).toList = b.1.toList ++ (" = ".toList ++ b.2.render.toList) := by
  rw [bindingLine, String.toList_append, String.toList_append, List.append_assoc]

theorem isLine_bindingLine {b : String × Value} (hb : IsTidyBinding b) :
    IsLine (bindingLine b) :=
  ((isLine_name hb.1).append (by decide)).append (Value.isLine_render_and_ne_of_isPlain hb.2).1

/-- A name ends at the first space, so the line says what the binding is. -/
theorem eq_of_bindingLine_eq
    {b b' : String × Value} (hb : IsTidyBinding b) (hb' : IsTidyBinding b')
    (h : bindingLine b = bindingLine b') : b = b' := by
  have htexts := congrArg String.toList h
  rw [toList_bindingLine, toList_bindingLine] at htexts
  obtain ⟨hname, hvalue⟩ :=
    name_append_inj hb.1 hb'.1 (separated_assign _) (separated_assign _) htexts
  have hrender := String.toList_injective (List.append_cancel_left hvalue)
  exact Prod.ext hname (Value.eq_of_render_eq hb.2 hb'.2 hrender)

theorem bindingLine_ne_noBindings {b : String × Value} (hb : IsTidyBinding b) :
    bindingLine b ≠ "(no bindings)" := by
  intro h
  obtain ⟨c, tail, hname, hc, -⟩ := exists_toList_eq_of_isName hb.1
  have htexts := congrArg String.toList h
  rw [toList_bindingLine, hname] at htexts
  obtain rfl : c = '(' := List.head_eq_of_cons_eq htexts
  exact absurd hc (by decide)

/-- The listing goes through the bindings of the only scope. -/
theorem describeEnv_of_env_eq
    {s : Session} {log : Log} (henv : s.env = History.environment ⟨log, []⟩)
    (hne : s.env.innermost.bindings ≠ []) :
    s.describeEnv = "\n".intercalate (s.env.innermost.bindings.map bindingLine) := by
  have hnames : s.env.names = s.env.innermost.bindings.map Prod.fst := by
    have hlog : s.env.names = log.names := by
      rw [henv, History.names_environment]
      simp [History.names, History.logs]
    rw [hlog, ← Scope.names_ofLog, henv]
    rfl
  have hline : ∀ b ∈ s.env.innermost.bindings,
      (s.env.get? b.1).map (fun value => b.1 ++ " = " ++ value.render) = some (bindingLine b) := by
    intro b hb
    have hget : s.env.get? b.1 = some b.2 := by
      rw [Environment.get?, Environment.scopes, List.findSome?_cons,
        Scope.get?_of_mem_bindings hb]
    rw [hget, Option.map_some, bindingLine]
  have hempty : ¬s.env.isEmpty = true := by
    simpa [Environment.isEmpty] using hne
  rw [describeEnv, if_neg hempty, hnames, List.filterMap_map, ← List.filterMap_eq_map]
  exact congrArg ("\n".intercalate ·) (List.filterMap_congr hline)

end Session

/-! ## Reached sessions and their listings -/

theorem Environment.defineAll_empty (log : Log) :
    Environment.empty.defineAll log = History.environment ⟨log, []⟩ := by
  induction log using List.reverseRecOn with
  | nil => rfl
  | append_singleton log d ih =>
      have hlast : Environment.empty.defineAll (log ++ [d]) =
          (Environment.empty.defineAll log).set d.1 d.2 := by
        simp [defineAll]
      rw [hlast, ih, History.environment, History.environment, Scope.ofLog_concat]
      rfl

theorem Environment.ext_bindings
    {env env' : Environment} (hbindings : env.innermost.bindings = env'.innermost.bindings)
    (henclosing : env.enclosing = env'.enclosing) : env = env' := by
  obtain ⟨⟨bindings, hnodup⟩, enclosing⟩ := env
  obtain ⟨⟨bindings', hnodup'⟩, enclosing'⟩ := env'
  obtain rfl : bindings = bindings' := hbindings
  obtain rfl : enclosing = enclosing' := henclosing
  rfl

theorem eq_of_map_eq_map
    {α β : Type} {f : α → β} {l l' : List α} (hf : ∀ a ∈ l, ∀ b ∈ l', f a = f b → a = b)
    (h : l.map f = l'.map f) : l = l' := by
  induction l generalizing l' with
  | nil => exact (List.map_eq_nil_iff.mp h.symm).symm
  | cons a l ih =>
      obtain ⟨b, l', rfl, hb, hl'⟩ := List.map_eq_cons_iff.mp h.symm
      have hab : a = b := hf a List.mem_cons_self b List.mem_cons_self hb.symm
      have hl : l = l' := ih (fun a ha b hb =>
        hf a (List.mem_cons_of_mem _ ha) b (List.mem_cons_of_mem _ hb)) hl'.symm
      rw [hab, hl]

namespace Session

/-- The session in which some source texts were evaluated from the start. -/
def reached (limit : Nat) (sources : List String) : Session :=
  (start limit).evalAll sources

variable {limit limit' : Nat} {sources sources' : List String}

theorem env_reached (limit : Nat) (sources : List String) :
    (reached limit sources).env = History.environment ⟨(start limit).definitions sources, []⟩ :=
  (env_evalAll (start limit) sources).trans (Environment.defineAll_empty _)

theorem isTidy_env_reached (limit : Nat) (sources : List String) :
    (reached limit sources).env.IsTidy :=
  isTidy_evalAll Environment.isTidy_empty sources

theorem isTidy_of_mem_bindings
    {b : String × Value} (hb : b ∈ (reached limit sources).env.innermost.bindings) :
    IsTidyBinding b := by
  have hget : (reached limit sources).env.get? b.1 = some b.2 := by
    rw [Environment.get?, Environment.scopes, List.findSome?_cons, Scope.get?_of_mem_bindings hb]
  obtain ⟨hplain, hname⟩ := isTidy_env_reached limit sources
  exact ⟨hname b.1 (by rw [hget]; rfl), Environment.isPlain_of_get? hplain hget⟩

theorem lines_describeEnv
    (hne : (reached limit sources).env.innermost.bindings ≠ []) :
    lines (reached limit sources).describeEnv =
      (reached limit sources).env.innermost.bindings.map bindingLine := by
  rw [describeEnv_of_env_eq (env_reached limit sources) hne]
  apply lines_intercalate
  · simpa using hne
  · intro text htext
    obtain ⟨b, hb, rfl⟩ := List.mem_map.mp htext
    exact isLine_bindingLine (isTidy_of_mem_bindings hb)

theorem enclosing_reached (limit : Nat) (sources : List String) :
    (reached limit sources).env.enclosing = [] := by
  rw [env_reached]
  rfl

theorem env_reached_eq_empty_iff :
    (reached limit sources).env = .empty ↔
      (reached limit sources).env.innermost.bindings = [] := by
  constructor
  · intro h
    rw [h]
    rfl
  · intro h
    exact Environment.ext_bindings h (enclosing_reached limit sources)

theorem describeEnv_eq_noBindings_iff :
    (reached limit sources).describeEnv = "(no bindings)" ↔
      (reached limit sources).env.innermost.bindings = [] := by
  constructor
  · intro h
    by_contra hne
    have hlines := lines_describeEnv hne
    rw [h, lines_of_isLine (by decide)] at hlines
    obtain ⟨b, rest, hbindings, hline, -⟩ := List.map_eq_cons_iff.mp hlines.symm
    have hb : b ∈ (reached limit sources).env.innermost.bindings := by
      rw [hbindings]
      exact List.mem_cons_self
    exact bindingLine_ne_noBindings (isTidy_of_mem_bindings hb) hline
  · intro h
    rw [describeEnv, Environment.isEmpty, h]
    rfl

theorem bindings_eq_of_describeEnv_eq
    (h : (reached limit sources).describeEnv = (reached limit' sources').describeEnv) :
    (reached limit sources).env.innermost.bindings =
      (reached limit' sources').env.innermost.bindings := by
  by_cases hnil : (reached limit sources).env.innermost.bindings = []
  · have hnil' := describeEnv_eq_noBindings_iff.mp
      (h.symm.trans (describeEnv_eq_noBindings_iff.mpr hnil))
    rw [hnil, hnil']
  · have hnil' : (reached limit' sources').env.innermost.bindings ≠ [] :=
      fun hnil' => hnil (describeEnv_eq_noBindings_iff.mp
        (h.trans (describeEnv_eq_noBindings_iff.mpr hnil')))
    have hlines := lines_describeEnv hnil
    rw [h, lines_describeEnv hnil'] at hlines
    refine eq_of_map_eq_map (fun b hb b' hb' => ?_) hlines.symm
    exact eq_of_bindingLine_eq (isTidy_of_mem_bindings hb) (isTidy_of_mem_bindings hb')

theorem env_eq_of_describeEnv_eq
    (h : (reached limit sources).describeEnv = (reached limit' sources').describeEnv) :
    (reached limit sources).env = (reached limit' sources').env := by
  apply Environment.ext_bindings (bindings_eq_of_describeEnv_eq h)
  rw [enclosing_reached, enclosing_reached]

/-- What a session shows in answer to a text and of its bindings, where `log` has the
definitions that were made so far. -/
structure ShowsFaithfully (s : Session) (log : Log) : Prop where
  /-- A text without syntax errors is answered by a single line that is not empty. -/
  answer : ∀ source p, Program.parse source = .ok p →
    lines (s.eval source).1 = [(s.eval source).1] ∧ (s.eval source).1 ≠ ""
  /-- Every other text is answered by its errors, each on a line of its own. -/
  errors : ∀ source errors, Program.parse source = .error errors →
    lines (s.eval source).1 = errors.map fun e => "syntax error: " ++ e.render
  /-- An environment without bindings is said to be one. -/
  noBindings : s.describeEnv = "(no bindings)" ↔ s.env = .empty
  /-- The bindings of every other environment have a line each. -/
  listing : s.env ≠ .empty →
    lines s.describeEnv = s.env.innermost.bindings.map fun b => b.1 ++ " = " ++ b.2.render
  /-- There are no bindings but those that are listed. -/
  enclosing : s.env.enclosing = []
  /-- Names come in the order of their first definitions, with their latest values. -/
  bindings : s.env.innermost.bindings.map (fun b => (b.1, some b.2)) =
    log.names.map fun x => (x, log.latest? x)

theorem showsFaithfully_reached (limit : Nat) (sources : List String) :
    (reached limit sources).ShowsFaithfully ((start limit).definitions sources) where
  answer source p hparse := by
    obtain ⟨hline, hne⟩ := isLine_eval_and_ne (isTidy_env_reached limit sources) hparse
    exact ⟨lines_of_isLine hline, hne⟩
  errors _ _ hparse := lines_eval_of_parse_eq_error hparse
  noBindings := describeEnv_eq_noBindings_iff.trans env_reached_eq_empty_iff.symm
  listing hne := lines_describeEnv fun hnil => hne (env_reached_eq_empty_iff.mpr hnil)
  enclosing := enclosing_reached limit sources
  bindings := by
    rw [env_reached]
    exact (History.describes_environment ⟨(start limit).definitions sources, []⟩).bindings

end Session

/-- Every session that source texts lead to from the start shows its answers line by
line and its bindings in full, and sessions with the same listing have the same
environment. -/
theorem reached_session_shows_faithfully (limit : Nat) (sources : List String) :
    (Session.reached limit sources).ShowsFaithfully
      ((Session.start limit).definitions sources) ∧
    ∀ (limit' : Nat) (sources' : List String),
      (Session.reached limit sources).describeEnv =
          (Session.reached limit' sources').describeEnv →
        (Session.reached limit sources).env = (Session.reached limit' sources').env :=
  ⟨Session.showsFaithfully_reached limit sources,
    fun _ _ => Session.env_eq_of_describeEnv_eq⟩

/-- A name is defined again, a text is rejected for two errors, another one fails
behind a definition, and a shorter session comes to the same bindings. -/
theorem reached_session_shows_faithfully_redefinition :
    let s := Session.reached 9
      ["let x = 1;\nlet y = x > 0;", "let x 5; let y 6;", "let x = 0 - 7; q"]
    let s' := Session.reached 5 ["let x = -7; let y = true"]
    Program.parse "x + q" = .ok ⟨[.expr (.binary .add (.name "x") (.name "q"))]⟩ ∧
      lines (s.eval "x + q").1 = ["ERROR: identifier not found: q"] ∧ (s.eval "x + q").1 ≠ "" ∧
    Program.parse "let x 5; let y 6;" =
        .error [⟨.unexpected .assign .int, some ⟨1, 7⟩⟩, ⟨.unexpected .assign .int, some ⟨1, 16⟩⟩] ∧
      lines (s.eval "let x 5; let y 6;").1 =
        ["syntax error: expected next token to be =, got INT instead (at 1:7)",
          "syntax error: expected next token to be =, got INT instead (at 1:16)"] ∧
    s.env ≠ .empty ∧ s.describeEnv ≠ "(no bindings)" ∧
      lines s.describeEnv = ["x = -7", "y = true"] ∧
    s.describeEnv = s'.describeEnv ∧ s.env = s'.env := by
  intro s s'
  obtain ⟨hshows, hsame⟩ := reached_session_shows_faithfully 9
    ["let x = 1;\nlet y = x > 0;", "let x 5; let y 6;", "let x = 0 - 7; q"]
  have hok : Program.parse "x + q" = .ok ⟨[.expr (.binary .add (.name "x") (.name "q"))]⟩ := rfl
  have herror : Program.parse "let x 5; let y 6;" =
      .error [⟨.unexpected .assign .int, some ⟨1, 7⟩⟩, ⟨.unexpected .assign .int, some ⟨1, 16⟩⟩] :=
    rfl
  have hne : s.env ≠ .empty := by decide +kernel
  have hlisting : s.describeEnv = s'.describeEnv := by decide +kernel
  obtain ⟨hline, hshown⟩ := hshows.answer "x + q" _ hok
  refine ⟨hok, ?_, hshown, herror, ?_, hne, ?_, ?_, hlisting, ?_⟩
  · exact hline.trans (by decide +kernel)
  · exact (hshows.errors _ _ herror).trans (by decide +kernel)
  · exact fun h => hne (hshows.noBindings.mp h)
  · exact (hshows.listing hne).trans (by decide +kernel)
  · exact hsame 5 _ hlisting

end LetLang
