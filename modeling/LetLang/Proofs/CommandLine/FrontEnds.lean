import LetLang.CommandLine.Report
import LetLang.Proofs.Session.Inert
import LetLang.Proofs.Session.Layout

/-!
# Three ways to run a text

A text can be run from a file, from the command line or as a line of a session.
The first two give the same report.  A session trims a line by all of Unicode's
white space, and the scanner passes over five blanks only, so a line is answered
like the text on the command line if the white space around it consists of blanks.
Then trimming leaves the tokens, and with them everything but the places of syntax
errors.

Backspaces in a line of a session are left to the reader of the lines, which may let
them take back what stands before them.  On the command line and in a file they are
characters like others.
-/

namespace LetLang

/-! ## The white space around a line -/

theorem scan_append_gap (a : List Char) {gap : List Char} (hgap : IsGap gap) (p : Position) :
    scan 0 p (a ++ gap) = scan 0 p a := by
  cases gap with
  | nil => rw [List.append_nil]
  | cons w gap =>
      obtain ⟨hw, hgap⟩ := List.forall_mem_cons.mp hgap
      have hscan : scan 0 (p.afterAll (a ++ [w])) gap = [] := by
        rw [← List.append_nil gap, scan_gap_append hgap, scan]
      rw [scan_append_blank (isBlank_iff.mpr hw) a gap (Nat.zero_le _), hscan, List.append_nil]

/-- Blanks around a text do not change its tokens. -/
theorem sameTokens_of_gaps
    {a b : String} {lead trail : List Char} (hlead : IsGap lead) (htrail : IsGap trail)
    (h : a.toList = lead ++ (b.toList ++ trail)) : SameTokens a b := by
  unfold SameTokens TokenStream.ofSource
  rw [h, scan_gap_append hlead, scan_append_gap _ htrail]
  exact sameText_scan _ _ _ _

theorem mem_rtakeWhile_append
    {q : Char → Bool} {c : Char} (a : List Char) {b : List Char} (h : c ∈ b.rtakeWhile q) :
    c ∈ (a ++ b).rtakeWhile q := by
  rw [List.rtakeWhile, List.mem_reverse] at h ⊢
  rw [List.reverse_append, List.takeWhile_append]
  split
  · exact List.mem_append_left _ ((List.takeWhile_prefix q).subset h)
  · exact h

/-- A line of source text: the white space at its start and at its end consists of
spaces, tabs, carriage returns and form feeds, and what is left of it is neither
empty nor a command. -/
structure IsSourceLine (line : String) : Prop where
  start : line.toList.takeWhile isWhitespace ⊆ [' ', '\t', '\r', '\x0c']
  stop : line.toList.rtakeWhile isWhitespace ⊆ [' ', '\t', '\r', '\x0c']
  nonempty : trim line ≠ ""
  noCommand : (trim line).toList.head? ≠ some ':'

namespace IsSourceLine

variable {line : String} (h : IsSourceLine line)
include h

theorem parse_eq : Input.parse line = .source (trim line) := by
  have hne (command : String) (hcommand : command.toList.head? = some ':') :
      trim line ≠ command := by
    intro heq
    exact h.noCommand (heq ▸ hcommand)
  have hquit : ¬(trim line = ":quit" ∨ trim line = ":q") :=
    not_or.mpr ⟨hne ":quit" rfl, hne ":q" rfl⟩
  simp only [Input.parse, if_neg h.nonempty, if_neg (hne ":env" rfl), if_neg (hne ":help" rfl),
    if_neg hquit, if_neg h.noCommand]

theorem sameTokens_trim : SameTokens line (trim line) := by
  have hblank : [' ', '\t', '\r', '\x0c'] ⊆ blanks := by decide
  let rest := line.toList.dropWhile isWhitespace
  have hsplit : line.toList = line.toList.takeWhile isWhitespace ++ rest :=
    List.takeWhile_append_dropWhile.symm
  have hrest : (trim line).toList ++ rest.rtakeWhile isWhitespace = rest := by
    rw [trim, String.toList_ofList]
    exact List.rdropWhile_append_rtakeWhile
  refine sameTokens_of_gaps (fun c hc => hblank (h.start hc))
    (fun c hc => hblank (h.stop ?_)) (hrest.symm ▸ hsplit)
  rw [hsplit]
  exact mem_rtakeWhile_append _ hc

end IsSourceLine

/-! ## Arguments -/

namespace Arguments

/-- The arguments that run a file. -/
def forScript (limit : Nat) (path : String) : List String :=
  ["--max-depth=" ++ limit.repr, path]

/-- The arguments that run a text. -/
def forSource (limit : Nat) (source : String) : List String :=
  ["--max-depth=" ++ limit.repr, "--eval=" ++ source]

/-- The arguments that hold a session. -/
def forSession (limit : Nat) : List String :=
  ["--max-depth=" ++ limit.repr]

namespace Given

theorem number?_repr {n : Nat} (hn : n < 18446744073709551616) : number? n.repr = some n := by
  have hread := Decimal.read?_toList_repr n
  have hdigits := (Decimal.read?_eq_some_iff.mp hread).2.1
  unfold number?
  split
  · next digits hplus =>
    rw [hplus] at hdigits
    exact absurd (hdigits '+' List.mem_cons_self) (by decide)
  · change (Decimal.read? n.repr.toList).filter _ = some n
    rw [hread]
    exact Option.filter_some_pos (decide_eq_true hn)

theorem splitLong_append {name : String} (hname : '=' ∉ name.toList) (value : String) :
    splitLong (name.toList ++ '=' :: value.toList) = (name, some value) := by
  have hpass : ∀ c ∈ name.toList, decide (c ≠ '=') = true := by
    intro c hc
    exact decide_eq_true fun heq => hname (heq ▸ hc)
  have htake : (name.toList ++ '=' :: value.toList).takeWhile (fun c => decide (c ≠ '=')) =
      name.toList := by
    rw [List.takeWhile_append_of_pos hpass]
    simp
  have hdrop : (name.toList ++ '=' :: value.toList).dropWhile (fun c => decide (c ≠ '=')) =
      '=' :: value.toList := by
    rw [List.dropWhile_append_of_pos hpass]
    simp
  unfold splitLong
  rw [htake, hdrop]
  simp

/-- An option with its value in the same argument. -/
theorem argument_long
    (g : Given) {name : String} (hname : '=' ∉ name.toList) (value : String) :
    g.argument ("--" ++ name ++ "=" ++ value) = g.long name (some value) := by
  have htext : ("--" ++ name ++ "=" ++ value).toList =
      '-' :: '-' :: (name.toList ++ '=' :: value.toList) := by
    simp
  unfold argument
  simp only [htext, splitLong_append hname]

/-- An argument that does not start with a dash, where no value is waited for. -/
theorem argument_plain
    {g : Given} (hpending : g.pending = .nothing) {text : String}
    (htext : text.toList.head? ≠ some '-') : g.argument text = g.plain text := by
  unfold argument
  split
  · next heq =>
    rw [heq] at htext
    exact absurd rfl htext
  · next heq =>
    rw [heq] at htext
    exact absurd rfl htext
  · rw [hpending]

end Given

theorem collect_long
    (g : Given) {name : String} (hname : '=' ∉ name.toList) (value : String)
    (rest : List String) :
    collect g (("--" ++ name ++ "=" ++ value) :: rest) =
      g.long name (some value) >>= fun g => collect g rest := by
  have hne : "--" ++ name ++ "=" ++ value ≠ "--" := by
    intro heq
    have hlength := congrArg (fun text => text.toList.length) heq
    simp at hlength
  rw [collect, if_neg hne, Given.argument_long g hname]

variable {limit : Nat} (hlimit : limit < 18446744073709551616)
include hlimit

theorem collect_maxDepth (rest : List String) :
    collect .empty (("--max-depth=" ++ limit.repr) :: rest) =
      collect { Given.empty with maxDepth := some limit } rest := by
  have hname : '=' ∉ "max-depth".toList := by decide
  have hstore : Given.empty.long "max-depth" (some limit.repr) =
      .ok { Given.empty with maxDepth := some limit } := by
    change Given.empty.store .maxDepth limit.repr = _
    simp [Given.store, Given.has, Given.empty, Given.number?_repr hlimit]
  have hcollect := collect_long .empty hname limit.repr rest
  rw [hstore] at hcollect
  exact hcollect

theorem parse_forSession : parse (forSession limit) = .ok ⟨none, none, limit, none⟩ := by
  unfold parse forSession
  rw [collect_maxDepth hlimit]
  rfl

theorem parse_forSource (source : String) :
    parse (forSource limit source) = .ok ⟨none, some source, limit, none⟩ := by
  have hname : '=' ∉ "eval".toList := by decide
  have hcollect := collect_long { Given.empty with maxDepth := some limit } hname source []
  unfold parse forSource
  rw [collect_maxDepth hlimit]
  exact congrArg (· >>= _) hcollect

theorem parse_forScript
    {path : String} (hpath : path ≠ "") (hoption : path.toList.head? ≠ some '-') :
    parse (forScript limit path) = .ok ⟨some path, none, limit, none⟩ := by
  have hne : path ≠ "--" := by
    rintro rfl
    exact hoption rfl
  have hsettle : collect { Given.empty with maxDepth := some limit, pending := .script path } [] =
      .ok { Given.empty with maxDepth := some limit, script := some path } := by
    change (if path = "" then _ else _) = _
    rw [if_neg hpath]
    rfl
  unfold parse forScript
  rw [collect_maxDepth hlimit, collect, if_neg hne, Given.argument_plain rfl hoption]
  change (collect { Given.empty with maxDepth := some limit, pending := .script path } [] >>= _) = _
  rw [hsettle]
  rfl

end Arguments

/-! ## Reports -/

/-- A text shows a result: the value or the fault itself, or syntax errors with the
same messages in the same order, whatever their places. -/
inductive ShowsResult : String → Except Failure Value → Prop where
  | value (v : Value) : ShowsResult v.render (.ok v)
  | fault (fault : Fault) : ShowsResult (Value.err fault).render (.error (.runtime fault))
  | syntaxErrors {errors errors' : List SyntaxError}
      (hmessages : errors'.map SyntaxError.message = errors.map SyntaxError.message) :
      ShowsResult (Failure.parse errors').render (.error (.parse errors))

/-- The answer to a line of source text shows what the line yields on its own. -/
theorem IsSourceLine.exists_transcript_eq
    {line : String} (h : IsSourceLine line) (limit : Nat) (lines : List String) :
    ∃ answer others, (Session.start limit).transcript (line :: lines) = answer :: others ∧
      ShowsResult answer (Run.ofSource limit line .empty).result := by
  have hquit : Input.parse line ≠ .quit := by
    rw [h.parse_eq]
    exact nofun
  rw [Session.transcript_cons _ hquit, h.parse_eq]
  refine ⟨(Run.ofSource limit (trim line) .empty).render, _, rfl, ?_⟩
  obtain ⟨-, hresult⟩ := run_of_sameTokens h.sameTokens_trim limit .empty
  rcases hresult with ⟨v, hline, htrim⟩ | ⟨fault, hline, htrim⟩ |
    ⟨errors, errors', hline, htrim, hmessages⟩
  · rw [hline, Run.render, htrim]
    exact .value v
  · rw [hline, Run.render, htrim]
    exact .fault fault
  · rw [hline, Run.render, htrim]
    exact .syntaxErrors hmessages.symm

namespace Report

/-- The report on a result: exit code zero with the value on the standard output, or
one with the failure on the error output. -/
def ofResult : Except Failure Value → Report
  | .ok value => ⟨0, value.render ++ "\n", ""⟩
  | .error failure => ⟨1, "", failure.render ++ "\n"⟩

theorem ofSource_eq (limit : Nat) (source : String) :
    ofSource limit source = ofResult (Run.ofSource limit source .empty).result := by
  cases hresult : (Run.ofSource limit source .empty).result with
  | ok value => simp only [ofSource, Run.render, hresult, ofResult]
  | error failure => simp only [ofSource, Run.render, hresult, ofResult]

theorem fromUTF8?_toUTF8 (source : String) : String.fromUTF8? source.toUTF8 = some source := by
  simp only [String.fromUTF8?, String.toUTF8_eq_toByteArray, dif_pos source.isValidUTF8]
  rfl

/-- The first line of a text, up to a line feed or the end. -/
theorem exists_linesOf_append
    {line : String} (hline : '\n' ∉ line.toList) (hne : line ≠ "")
    {rest : String} (hrest : rest = "" ∨ rest.toList.head? = some '\n') :
    ∃ lines, linesOf (line ++ rest) = line :: lines := by
  unfold linesOf
  rw [String.toList_append]
  rcases hrest with rfl | hrest
  · rw [String.toList_empty, List.append_nil, List.splitOn_eq_singleton hline]
    have hlast : [line.toList].getLast? ≠ some [] := by
      simpa using hne
    refine ⟨[], ?_⟩
    simp only [if_neg hlast, List.map_cons, List.map_nil, String.ofList_toList]
  · obtain ⟨more, hmore⟩ := List.head?_eq_some_iff.mp hrest
    rw [hmore, List.splitOn_append_cons_self_of_not_mem hline]
    have hlines : more.splitOn '\n' ≠ [] := List.splitOn_ne_nil '\n' more
    -- the last line is not this one, so dropping it leaves this one in place
    simp only [List.dropLast_cons_of_ne_nil hlines]
    split
    · exact ⟨_, by rw [List.map_cons, String.ofList_toList]⟩
    · exact ⟨_, by rw [List.map_cons, String.ofList_toList]⟩

/-- A session over an input with a line of source text in front. -/
theorem exists_answers_eq
    (reader : LineReader) (limit : Nat) {typed : String} (htyped : '\n' ∉ typed.toList)
    (hsource : IsSourceLine (reader.read typed))
    {rest : String} (hrest : rest = "" ∨ rest.toList.head? = some '\n') :
    ∃ answer others, answers reader limit (typed ++ rest) = answer :: others ∧
      ShowsResult answer (Run.ofSource limit (reader.read typed) .empty).result := by
  have hne : typed ≠ "" := by
    rintro rfl
    rw [reader.read_of_not_mem List.not_mem_nil] at hsource
    exact hsource.nonempty rfl
  obtain ⟨lines, hlines⟩ := exists_linesOf_append htyped hne hrest
  unfold answers
  rw [hlines]
  exact hsource.exists_transcript_eq limit _

section

variable (reader : LineReader) (files : String → Except ReadFailure ByteArray) (input : String)
variable {limit : Nat} (hlimit : limit < 18446744073709551616)
include hlimit

theorem ofArguments_forSource (source : String) :
    ofArguments files input (Arguments.forSource limit source) reader =
      ofResult (Run.ofSource limit source .empty).result := by
  unfold ofArguments
  rw [Arguments.parse_forSource hlimit]
  exact ofSource_eq limit source

theorem ofArguments_forScript
    {path : String} (hpath : path ≠ "") (hoption : path.toList.head? ≠ some '-')
    {source : String} (hsource : files path = .ok source.toUTF8) :
    ofArguments files input (Arguments.forScript limit path) reader =
      ofResult (Run.ofSource limit source .empty).result := by
  unfold ofArguments
  rw [Arguments.parse_forScript hlimit hpath hoption]
  simp only [hsource, ofScript, fromUTF8?_toUTF8]
  exact ofSource_eq limit source

theorem ofArguments_forSession :
    ofArguments files input (Arguments.forSession limit) reader =
      ofSession reader limit input := by
  unfold ofArguments
  rw [Arguments.parse_forSession hlimit]

end

/-- The session over an input has a first answer, which shows what a text yields on
its own. -/
def FirstShows
    (reader : LineReader) (files : String → Except ReadFailure ByteArray) (limit : Nat)
    (input source : String) : Prop :=
  ∃ answer others,
    answers reader limit input = answer :: others ∧
    ofArguments files input (Arguments.forSession limit) reader =
      ⟨0, String.join ((greeting :: answer :: others).map (· ++ "\n")), ""⟩ ∧
    ShowsResult answer (Run.ofSource limit source .empty).result

theorem firstShows
    (reader : LineReader) (files : String → Except ReadFailure ByteArray) {limit : Nat}
    (hlimit : limit < 18446744073709551616) {typed : String} (htyped : '\n' ∉ typed.toList)
    (hsource : IsSourceLine (reader.read typed))
    {rest : String} (hrest : rest = "" ∨ rest.toList.head? = some '\n') :
    FirstShows reader files limit (typed ++ rest) (reader.read typed) := by
  obtain ⟨answer, others, hanswers, hshows⟩ :=
    exists_answers_eq reader limit htyped hsource hrest
  refine ⟨answer, others, hanswers, ?_, hshows⟩
  rw [ofArguments_forSession reader files _ hlimit, ofSession, hanswers]

end Report

/-- The front ends agree.  A script file and a text among the arguments give the same
report, which is that of the result.  The first answer of a session shows the same
result of its first line, as the reader hands it on, if that is a line of source text.
If the line has no backspaces, that is the line itself. -/
theorem front_ends_agree
    (reader : LineReader) (files : String → Except ReadFailure ByteArray) (limit : Nat)
    (hlimit : limit < 18446744073709551616) :
    (∀ source input, Report.ofArguments files input (Arguments.forSource limit source) reader =
      Report.ofResult (Run.ofSource limit source .empty).result) ∧
    (∀ source path input, path ≠ "" → path.toList.head? ≠ some '-' →
      files path = .ok source.toUTF8 →
      Report.ofArguments files input (Arguments.forScript limit path) reader =
        Report.ofResult (Run.ofSource limit source .empty).result) ∧
    (∀ typed rest, '\n' ∉ typed.toList → rest = "" ∨ rest.toList.head? = some '\n' →
      IsSourceLine (reader.read typed) →
      Report.FirstShows reader files limit (typed ++ rest) (reader.read typed)) ∧
    ∀ typed : String, LineEdit.backspace ∉ typed.toList →
      reader.read typed = typed ∧
      ∀ rest, '\n' ∉ typed.toList → rest = "" ∨ rest.toList.head? = some '\n' →
        IsSourceLine typed → Report.FirstShows reader files limit (typed ++ rest) typed := by
  refine ⟨?_, ?_, ?_, ?_⟩
  · intro source input
    exact Report.ofArguments_forSource reader files input hlimit source
  · intro source path input hpath hoption hsource
    exact Report.ofArguments_forScript reader files input hlimit hpath hoption hsource
  · intro typed rest htyped hrest hsource
    exact Report.firstShows reader files hlimit htyped hsource hrest
  · intro typed hbackspace
    have hread := reader.read_of_not_mem hbackspace
    refine ⟨hread, ?_⟩
    intro rest htyped hrest hsource
    have hshows := Report.firstShows reader files hlimit htyped (hread.symm ▸ hsource) hrest
    rwa [hread] at hshows

/-- A file, an argument, a line that takes back a slip and a line without one, all with
the same sum. -/
theorem front_ends_agree_on_sum :
    Report.ofArguments (fun _ => .ok "2 + 3 ".toUTF8) "" (Arguments.forScript 9 "sum") =
      ⟨0, "5\n", ""⟩ ∧
    Report.ofArguments (fun _ => .error .notFound) "" (Arguments.forSource 9 "2 + 3 ") =
      ⟨0, "5\n", ""⟩ ∧
    (∃ others, Report.answers LineEdit.reader 9 "2 + 4\x083 \n:env" = "5" :: others) ∧
    ∃ others, Report.answers LineEdit.reader 9 "2 + 3 " = "5" :: others := by
  have hread : LineEdit.reader.read "2 + 4\x083 " = "2 + 3 " := by decide +kernel
  have hline : IsSourceLine "2 + 3 " :=
    ⟨by decide +kernel, by decide +kernel, by decide +kernel, by decide +kernel⟩
  have hresult : (Run.ofSource 9 "2 + 3 " .empty).result = .ok (.int ⟨5, by decide⟩) := by
    decide +kernel
  obtain ⟨hargument, -, hsession, hplain⟩ :=
    front_ends_agree LineEdit.reader (fun _ => .error .notFound) 9 (by decide)
  refine ⟨?_, ?_, ?_, ?_⟩
  · obtain ⟨-, hscript, -⟩ :=
      front_ends_agree LineEdit.reader (fun _ => .ok "2 + 3 ".toUTF8) 9 (by decide)
    rw [hscript "2 + 3 " "sum" "" (by decide) (by decide) rfl, hresult]
    decide +kernel
  · rw [hargument "2 + 3 " "", hresult]
    decide +kernel
  · obtain ⟨answer, others, hanswers, -, hshows⟩ :=
      hsession "2 + 4\x083 " "\n:env" (by decide) (.inr (by decide)) (hread ▸ hline)
    rw [hread, hresult] at hshows
    cases hshows
    exact ⟨others, hanswers⟩
  · obtain ⟨answer, others, hanswers, -, hshows⟩ :=
      (hplain "2 + 3 " (by decide)).2 "" (by decide) (.inl rfl) hline
    rw [hresult] at hshows
    cases hshows
    exact ⟨others, hanswers⟩

/-- A backspace sets the front ends apart: in a session it takes back the digit before
it, and among the arguments no token starts with it. -/
theorem backspace_parts_front_ends :
    '\n' ∉ "12\x08".toList ∧ IsSourceLine "12\x08" ∧
    Report.ofArguments (fun _ => .error .notFound) "12\x08\n" (Arguments.forSession 1000) =
      ⟨0, "Mandrill 0.0.1. Type :help for commands.\n1\n", ""⟩ ∧
    Report.answers LineEdit.reader 1000 "12\x08\n" = ["1"] ∧
    Report.ofArguments (fun _ => .error .notFound) "" (Arguments.forSource 1000 "12\x08") =
      ⟨1, "", "syntax error: no prefix parse function for ILLEGAL found (at 1:3)\n"⟩ ∧
    ¬ShowsResult "1" (Run.ofSource 1000 "12\x08" .empty).result := by
  refine ⟨by decide, ⟨by decide +kernel, by decide +kernel, by decide +kernel, by decide +kernel⟩,
    by decide +kernel, by decide +kernel, by decide +kernel, ?_⟩
  have hresult : (Run.ofSource 1000 "12\x08" .empty).result =
      .error (.parse [⟨.noExpression .illegal, some ⟨1, 3⟩⟩]) := by
    decide +kernel
  rw [hresult]
  intro hshows
  generalize hshown : "1" = shown at hshows
  cases hshows with
  | syntaxErrors hmessages =>
      obtain ⟨e, rfl, -⟩ := List.map_eq_singleton_iff.mp hmessages
      have hhead := congrArg (fun text => text.toList.head?) hshown
      simp [Failure.render] at hhead

end LetLang
