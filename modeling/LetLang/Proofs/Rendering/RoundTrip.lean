import LetLang.Proofs.Grammar.Completeness
import LetLang.Proofs.Rendering.Canonical

/-!
# Parsing undoes rendering

The canonical text of a well-formed program parses as that program, provided its
nesting stays within the limit of the parser.  If it does not, the parser
reports the nesting and nothing else.
-/

namespace LetLang

open Grammar

/-- No canonical text of a well-formed expression starts with an equals sign. -/
theorem head?_render_append_ne
    {e : Expr} (he : e.isWellFormed = true) (text : List Char) :
    (e.render.toList ++ text).head? ≠ some '=' := by
  cases e with
  | name x =>
      obtain ⟨c, tail, htext, hc, -⟩ := exists_toList_eq_of_isName he
      rw [Expr.render, htext]
      intro hhead
      obtain rfl : c = '=' := Option.some.inj hhead
      exact absurd hc (by decide)
  | int n =>
      obtain ⟨c, tail, htext, hc, -⟩ := exists_toList_render_eq (of_decide_eq_true he)
      rw [Expr.render, htext]
      intro hhead
      obtain rfl : c = '=' := Option.some.inj hhead
      exact absurd hc (by decide)
  | bool b => cases b <;> simp [Expr.render]
  | unary op e => simp [Expr.render]
  | binary op l r => simp [Expr.render]
  | ifThen c t => simp [Expr.render]
  | ifElse c t e => simp [Expr.render]

mutual

theorem scansExpr_of_isWellFormed :
    (e : Expr) → e.isWellFormed = true → ScansExpr e
  | .name _, hx => scansExpr_name hx
  | .int _, hn => scansExpr_int (of_decide_eq_true hn)
  | .bool b, _ => scansExpr_bool b
  | .unary _ e, he =>
      scansExpr_unary (scansExpr_of_isWellFormed e he) (head?_render_append_ne he)
  | .binary _ l r, h => by
      rw [Expr.isWellFormed, Bool.and_eq_true] at h
      exact scansExpr_binary (scansExpr_of_isWellFormed l h.1) (scansExpr_of_isWellFormed r h.2)
  | .ifThen c t, h => by
      rw [Expr.isWellFormed, Bool.and_eq_true] at h
      exact scansExpr_ifThen (scansExpr_of_isWellFormed c h.1)
        (scansBlock (scansSequence_of_areWellFormed t h.2))
  | .ifElse c t e, h => by
      rw [Expr.isWellFormed, Bool.and_eq_true, Bool.and_eq_true] at h
      exact scansExpr_ifElse (scansExpr_of_isWellFormed c h.1.1)
        (scansBlock (scansSequence_of_areWellFormed t h.1.2))
        (scansBlock (scansSequence_of_areWellFormed e h.2))

theorem scansStmt_of_isWellFormed :
    (st : Stmt) → st.isWellFormed = true → ScansStmt st
  | .bind x e, h => by
      rw [Stmt.isWellFormed, Bool.and_eq_true] at h
      exact scansStmt_bind h.1 (scansExpr_of_isWellFormed e h.2)
  | .ret e, he => scansStmt_ret (scansExpr_of_isWellFormed e he)
  | .expr e, he => scansStmt_expr (scansExpr_of_isWellFormed e he)
  | .block b, hb => scansStmt_block (scansBlock (scansSequence_of_areWellFormed b hb))

theorem scansSequence_of_areWellFormed :
    (b : List Stmt) → Stmt.areWellFormed b = true → ScansSequence b
  | [], _ => scansSequence_nil
  | [st], h => by
      rw [Stmt.areWellFormed, Bool.and_eq_true] at h
      exact scansSequence_singleton (scansStmt_of_isWellFormed st h.1)
  | st :: next :: b, h => by
      rw [Stmt.areWellFormed, Bool.and_eq_true] at h
      exact scansSequence_cons (scansStmt_of_isWellFormed st h.1)
        (scansSequence_of_areWellFormed (next :: b) h.2)

end

/-- The tokens of the canonical text of a well-formed program derive it. -/
theorem derives_tokens_render (p : Program) (hp : p.isWellFormed = true) :
    Derives (TokenStream.ofSource p.render).tokens p p.need := by
  obtain ⟨ts, ⟨hts, -⟩, hscan⟩ :=
    scansSequence_of_areWellFormed p.statements hp separated_nil .start
  rw [List.append_nil, scan, List.append_nil] at hscan
  change Statements (scan 0 .start p.render.toList) p.statements p.need
  rw [show scan 0 .start p.render.toList = ts from hscan]
  exact hts

theorem ofReading_of_reads
    {s s' : TokenStream} {p : Program}
    (h : Parser.Reads (Parser.program Parser.maxNesting) s p s') :
    Program.ofReading (Program.read s) = .ok p := by
  obtain ⟨hvalue, -, herrors⟩ := h
  unfold Program.ofReading
  rw [Program.read, herrors, hvalue]
  rfl

theorem ofReading_of_refuses
    {s : TokenStream} (h : Parser.Refuses (Parser.program Parser.maxNesting) s) :
    ∃ e, Program.ofReading (Program.read s) = .error [e] ∧ e.cause = .nestedTooDeeply := by
  obtain ⟨e, errors, herrors, hcause⟩ := h
  refine ⟨e, ?_, hcause⟩
  unfold Program.ofReading
  rw [Program.read, herrors, SyntaxError.reported, if_pos hcause]

/-- The canonical text of a well-formed program parses as the program if it
needs at most 256 levels of nesting, and otherwise the nesting is its only
error. -/
theorem parse_render_iff_need_le
    (p : Program) (hp : p.isWellFormed = true) :
    (p.need ≤ 256 → Program.parse p.render = .ok p) ∧
    (256 < p.need → ∃ e, Program.parse p.render = .error [e] ∧
      e.message = "expression nested too deeply") := by
  have hread : Parser.ReadsIf (p.need ≤ Parser.maxNesting)
      (Parser.program Parser.maxNesting)
      (TokenStream.prepend (TokenStream.ofSource p.render).tokens
        ⟨[], (TokenStream.ofSource p.render).ending⟩) p
      ⟨[], (TokenStream.ofSource p.render).ending⟩ :=
    Parser.program_complete (derives_tokens_render p hp) rfl
  have hstream : TokenStream.prepend (TokenStream.ofSource p.render).tokens
      ⟨[], (TokenStream.ofSource p.render).ending⟩ = .ofSource p.render := by
    simp [TokenStream.prepend]
  rw [hstream] at hread
  constructor
  · intro hneed
    exact ofReading_of_reads (hread.reads hneed)
  · intro hneed
    obtain ⟨e, he, hcause⟩ := ofReading_of_refuses (hread.refuses (Nat.not_le.mpr hneed))
    exact ⟨e, he, by rw [SyntaxError.message, hcause]; rfl⟩

/-- A definition and a conditional come back from their text, and 128 operators
in front of a literal are one level too many. -/
theorem parse_render_conditional_and_deep :
    (∃ p : Program,
      p = ⟨[.bind "x" (.unary .neg (.int ⟨7, by decide⟩)),
        .expr (.ifElse (.binary .lt (.name "x") (.bool true)) [.ret (.name "x")] [])]⟩ ∧
      p.isWellFormed = true ∧ p.need ≤ 256 ∧ Program.parse p.render = .ok p) ∧
    (∃ p : Program, ∃ e,
      p = ⟨[.expr (Nat.repeat (Expr.unary .not) 128 (.bool true))]⟩ ∧
      p.isWellFormed = true ∧ 256 < p.need ∧
      Program.parse p.render = .error [e] ∧ e.message = "expression nested too deeply") := by
  constructor
  · refine ⟨_, rfl, by decide, by decide, ?_⟩
    exact (parse_render_iff_need_le _ (by decide)).1 (by decide)
  · obtain ⟨e, he, hmessage⟩ :=
      (parse_render_iff_need_le ⟨[.expr (Nat.repeat (Expr.unary .not) 128 (.bool true))]⟩
        (by decide +kernel)).2 (by decide +kernel)
    exact ⟨_, e, rfl, by decide +kernel, by decide +kernel, he, hmessage⟩

end LetLang
