import LetLang.Proofs.Evaluation.Counter
import LetLang.Session

/-!
# Lines that leave no trace

Blank lines, commands and rejected texts do not touch the state of a session, so
they can be dropped from a dialogue: the other lines are answered as before, and
the bindings at the end are the same.  This is also so for a session whose
evaluator keeps the counter of open levels from line to line, since every line
gives back all levels that it opened, also when it fails for want of depth.
-/

namespace LetLang

/-- Whether a line is blank, a command other than the one that ends the session, or
a text with syntax errors. -/
def Input.isInert : Input → Bool
  | .empty | .env | .help | .unknown _ => true
  | .quit => false
  | .source text =>
      match Program.parse text with
      | .error _ => true
      | .ok _ => false

/-- The lines that are left when the inert ones are dropped. -/
def effectiveLines (lines : List String) : List String :=
  lines.filter fun line => !(Input.parse line).isInert

section EffectiveLines

variable {line : String}

theorem effectiveLines_cons_of_isInert
    (h : (Input.parse line).isInert = true) (lines : List String) :
    effectiveLines (line :: lines) = effectiveLines lines :=
  List.filter_cons_of_neg (by simp [h])

theorem effectiveLines_cons_of_not_isInert
    (h : (Input.parse line).isInert = false) (lines : List String) :
    effectiveLines (line :: lines) = line :: effectiveLines lines :=
  List.filter_cons_of_pos (by simp [h])

end EffectiveLines

/-! ## Dialogues -/

section Dialogues

variable {σ : Type} (respond : σ → Input → Option String × σ)

/-- The lines with their answers. -/
def exchanges (s : σ) : List String → List (String × Option String)
  | [] => []
  | line :: lines =>
      (line, (respond s (Input.parse line)).1) ::
        exchanges (respond s (Input.parse line)).2 lines

/-- What some lines make of a state. -/
def afterLines (s : σ) : List String → σ
  | [] => s
  | line :: lines => afterLines (respond s (Input.parse line)).2 lines

end Dialogues

namespace Session

/-- A text with syntax errors is not evaluated, not even the statements before the
first error. -/
theorem respond_source_of_parse_eq_error
    {text : String} {errors : List SyntaxError} (h : Program.parse text = .error errors)
    (s : Session) : s.respond (.source text) = (some (Failure.parse errors).render, s) := by
  obtain ⟨hresult, henv⟩ := Run.ofSource_of_parse_eq_error h s.limit s.env
  simp [respond, eval, Run.render, hresult, henv]

theorem respond_source_of_parse_eq_ok
    {text : String} {program : Program} (h : Program.parse text = .ok program) (s : Session) :
    s.respond (.source text) =
      (some (Run.render ⟨Run.resultOf (program.eval s.limit s.env).value,
          (program.eval s.limit s.env).env, []⟩),
        { s with env := (program.eval s.limit s.env).env }) := by
  obtain ⟨hresult, henv⟩ := Run.ofSource_of_parse_eq_ok h s.limit s.env
  simp [respond, eval, Run.render, hresult, henv]

theorem respond_of_isInert
    (s : Session) {input : Input} (h : input.isInert = true) : (s.respond input).2 = s := by
  cases input with
  | quit => cases h
  | source text =>
      cases hparse : Program.parse text with
      | error errors => rw [respond_source_of_parse_eq_error hparse]
      | ok program => simp [Input.isInert, hparse] at h
  | _ => rfl

theorem exchanges_effectiveLines (s : Session) (lines : List String) :
    exchanges respond s (effectiveLines lines) =
      (exchanges respond s lines).filter fun x => !(Input.parse x.1).isInert := by
  induction lines generalizing s with
  | nil => rfl
  | cons line lines ih =>
      rw [exchanges]
      cases hline : (Input.parse line).isInert with
      | true =>
          -- The lines behind it start from the same session, with or without it.
          rw [effectiveLines_cons_of_isInert hline, List.filter_cons_of_neg (by simp [hline]),
            s.respond_of_isInert hline]
          exact ih s
      | false =>
          rw [effectiveLines_cons_of_not_isInert hline, exchanges,
            List.filter_cons_of_pos (by simp [hline])]
          exact congrArg _ (ih _)

theorem afterLines_effectiveLines (s : Session) (lines : List String) :
    afterLines respond s (effectiveLines lines) = afterLines respond s lines := by
  induction lines generalizing s with
  | nil => rfl
  | cons line lines ih =>
      cases hline : (Input.parse line).isInert with
      | true =>
          rw [effectiveLines_cons_of_isInert hline, afterLines, s.respond_of_isInert hline]
          exact ih s
      | false =>
          rw [effectiveLines_cons_of_not_isInert hline, afterLines, afterLines]
          exact ih _

theorem transcript_cons
    (s : Session) {line : String} (hline : Input.parse line ≠ .quit) (lines : List String) :
    s.transcript (line :: lines) =
      (s.respond (Input.parse line)).1.toList ++
        (s.respond (Input.parse line)).2.transcript lines := by
  rw [transcript]
  split
  · exact absurd ‹_› hline
  · rfl

/-- As long as no line ends the session, all answers are shown. -/
theorem transcript_eq_filterMap_exchanges
    (s : Session) {lines : List String} (hquit : ∀ line ∈ lines, Input.parse line ≠ .quit) :
    s.transcript lines = (exchanges respond s lines).filterMap Prod.snd := by
  induction lines generalizing s with
  | nil => rfl
  | cons line lines ih =>
      obtain ⟨hline, hlines⟩ := List.forall_mem_cons.mp hquit
      rw [transcript_cons s hline, ih _ hlines, exchanges, List.filterMap_cons]
      cases (s.respond (Input.parse line)).1 <;> rfl

end Session

/-! ## Sessions that keep the counter -/

/-- A session whose evaluator goes on with the counter as the line before left
it. -/
structure CountingSession extends Session where
  /-- How many levels are open. -/
  opened : Nat

namespace CountingSession

/-- The answer to a line, if it has one, and the session afterwards. -/
def respond (s : CountingSession) : Input → Option String × CountingSession
  | .source text =>
      match Program.parse text with
      | .error errors => (some (Failure.parse errors).render, s)
      | .ok program =>
          let (value, state) := ((program.evalCounting s.limit).run ⟨s.env, s.opened, []⟩).run
          (some (Run.render ⟨Run.resultOf value, state.env, []⟩),
            ⟨⟨s.limit, state.env⟩, state.opened⟩)
  | input => ((s.toSession.respond input).1, s)

/-- With no level open, a line is answered as without a counter, and no level is
open afterwards. -/
theorem respond_of_none_opened (s : Session) (input : Input) :
    respond ⟨s, 0⟩ input = ((s.respond input).1, ⟨(s.respond input).2, 0⟩) := by
  cases input with
  | source text =>
      rw [respond]
      cases hparse : Program.parse text with
      | error errors => rw [Session.respond_source_of_parse_eq_error hparse]
      | ok program =>
          rw [Session.respond_source_of_parse_eq_ok hparse]
          simp only [program.run_evalCounting]
  | _ => rfl

theorem exchanges_of_none_opened (s : Session) (lines : List String) :
    exchanges respond ⟨s, 0⟩ lines = exchanges Session.respond s lines := by
  induction lines generalizing s with
  | nil => rfl
  | cons line lines ih => rw [exchanges, exchanges, respond_of_none_opened, ih]

theorem afterLines_of_none_opened (s : Session) (lines : List String) :
    afterLines respond ⟨s, 0⟩ lines = ⟨afterLines Session.respond s lines, 0⟩ := by
  induction lines generalizing s with
  | nil => rfl
  | cons line lines ih => rw [afterLines, afterLines, respond_of_none_opened, ih]

end CountingSession

/-- Without its inert lines, a dialogue in which no line ends the session has the
other lines with the same answers and leaves the same session.  A counter of open
levels that is kept from line to line makes no difference, and it is back at zero
after the last line.  A run of a text with syntax errors reports them and leaves
the bindings as they were. -/
theorem inert_lines_leave_no_trace
    (s : Session) (lines : List String) (hquit : ∀ line ∈ lines, Input.parse line ≠ .quit) :
    exchanges Session.respond s (effectiveLines lines) =
      (exchanges Session.respond s lines).filter (fun x => !(Input.parse x.1).isInert) ∧
    s.transcript (effectiveLines lines) =
      ((exchanges Session.respond s lines).filter
        fun x => !(Input.parse x.1).isInert).filterMap Prod.snd ∧
    afterLines Session.respond s (effectiveLines lines) = afterLines Session.respond s lines ∧
    (∀ anyLines, exchanges CountingSession.respond ⟨s, 0⟩ anyLines =
        exchanges Session.respond s anyLines ∧
      afterLines CountingSession.respond ⟨s, 0⟩ anyLines =
        ⟨afterLines Session.respond s anyLines, 0⟩) ∧
    (∀ limit source env errors, Program.parse source = .error errors →
      (Run.ofSource limit source env).result = .error (.parse errors) ∧
        (Run.ofSource limit source env).env = env) := by
  have hexchanges := s.exchanges_effectiveLines lines
  have hquit' : ∀ line ∈ effectiveLines lines, Input.parse line ≠ .quit :=
    fun line hline => hquit line (List.mem_filter.mp hline).1
  refine ⟨hexchanges, ?_, s.afterLines_effectiveLines lines, ?_, ?_⟩
  · rw [s.transcript_eq_filterMap_exchanges hquit', hexchanges]
  · intro anyLines
    exact ⟨CountingSession.exchanges_of_none_opened s anyLines,
      CountingSession.afterLines_of_none_opened s anyLines⟩
  · intro limit source env errors hparse
    exact Run.ofSource_of_parse_eq_error hparse limit env

/-- Commands, a blank line and a text with an error behind a definition stand around
a line that fails for want of depth. -/
theorem inert_lines_leave_no_trace_depth :
    ∃ (s : Session) (lines : List String),
      s = .start 2 ∧
      lines = [":what", "let x = 1;", ":env", "let y = 2; let = 3", "x + 2 * 3", "  ", ":help",
        "x"] ∧
      (∀ line ∈ lines, Input.parse line ≠ .quit) ∧
      effectiveLines lines = ["let x = 1;", "x + 2 * 3", "x"] ∧
      s.transcript (effectiveLines lines) =
        ["1", "ERROR: maximum evaluation depth exceeded: 2", "1"] ∧
      ((exchanges Session.respond s lines).filter
          fun x => !(Input.parse x.1).isInert).filterMap Prod.snd =
        ["1", "ERROR: maximum evaluation depth exceeded: 2", "1"] ∧
      afterLines Session.respond s lines =
        { s with env := s.env.set "x" (.int ⟨1, by decide⟩) } := by
  obtain ⟨lines, hlines⟩ : ∃ lines, lines = [":what", "let x = 1;", ":env",
      "let y = 2; let = 3", "x + 2 * 3", "  ", ":help", "x"] := ⟨_, rfl⟩
  have hquit : ∀ line ∈ lines, Input.parse line ≠ .quit := by
    subst hlines
    decide
  have hlines' : effectiveLines lines = ["let x = 1;", "x + 2 * 3", "x"] := by
    subst hlines
    decide +kernel
  have hshown : (Session.start 2).transcript ["let x = 1;", "x + 2 * 3", "x"] =
      ["1", "ERROR: maximum evaluation depth exceeded: 2", "1"] := by decide +kernel
  obtain ⟨-, htranscript, hafter, -, -⟩ := inert_lines_leave_no_trace (.start 2) lines hquit
  rw [hlines'] at htranscript hafter
  refine ⟨_, lines, rfl, hlines, hquit, hlines', ?_, htranscript.symm.trans hshown,
    hafter.symm.trans ?_⟩
  · rw [hlines']
    exact hshown
  · decide +kernel

end LetLang
