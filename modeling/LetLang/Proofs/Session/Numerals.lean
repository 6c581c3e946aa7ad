import LetLang.Proofs.Grammar.Concatenation
import LetLang.Proofs.Parser.Lookahead
import LetLang.Proofs.Session.Layout

/-!
# Running the text of an integer

A text of digits is one token, read as the number that the digits stand for.  If
that number is out of range, the whole text is reported and nothing else is.  A
minus sign in front is an operator of its own: the digits behind it are read first
and negated then.  So the text of every integer runs to that integer, except for the
least one, whose digits are already out of range.
-/

namespace LetLang

open Grammar

variable {limit : Nat} {n : Integer} {digits : String}

/-! ## Tokens -/

theorem IsNumeral.tokens (h : IsNumeral digits.toList) :
    (TokenStream.ofSource digits).tokens = [⟨.int, digits, .start⟩] :=
  h.spells.scan_eq .start

theorem IsNumeral.tokens_minus (h : IsNumeral digits.toList) :
    (TokenStream.ofSource ("-" ++ digits)).tokens =
      [⟨.minus, "-", .start⟩, ⟨.int, digits, ⟨1, 2⟩⟩] := by
  have htext : ("-" ++ digits).toList = '-' :: digits.toList := by
    rw [String.toList_append]
    rfl
  rw [TokenStream.ofSource, htext]
  exact congrArg _ (h.spells.scan_eq ⟨1, 2⟩)

/-! ## Literals in range -/

theorem derives_int
    {t : Token} (ht : t.kind = .int) (hn : Writes t.literal.toList n.toInt) :
    Derives [t] ⟨[.expr (.int n)]⟩ 1 := by
  have hint : Expression .equality [t] (.int n) 1 :=
    Expression.of_rank_le (.int ht hn) (by decide)
  exact .cons (.expr hint .omitted) (by simp) .nil

theorem derives_neg
    {t u : Token} (ht : t.kind = .minus) (hu : u.kind = .int)
    (hn : Writes u.literal.toList n.toInt) :
    Derives [t, u] ⟨[.expr (.unary .neg (.int n))]⟩ 2 := by
  have hint : Expression .unary [u] (.int n) 1 :=
    Expression.of_rank_le (.int hu hn) (by decide)
  have hneg : Expression .equality [t, u] (.unary .neg (.int n)) 2 :=
    Expression.of_rank_le (.unary (by rw [ht]; rfl) hint) (by decide)
  exact .cons (.expr hneg .omitted) (by simp) .nil

theorem parse_numeral (h : IsNumeral digits.toList) (hn : n.toInt = Decimal.value digits.toList) :
    Program.parse digits = .ok ⟨[.expr (.int n)]⟩ := by
  have hderives : Derives (TokenStream.ofSource digits).tokens ⟨[.expr (.int n)]⟩ 1 := by
    rw [h.tokens]
    exact derives_int rfl (hn ▸ .unsigned h)
  exact Program.parse_eq_ok_of_derives hderives (by decide)

theorem parse_minus_numeral
    (h : IsNumeral digits.toList) (hn : n.toInt = Decimal.value digits.toList) :
    Program.parse ("-" ++ digits) = .ok ⟨[.expr (.unary .neg (.int n))]⟩ := by
  have hderives : Derives (TokenStream.ofSource ("-" ++ digits)).tokens
      ⟨[.expr (.unary .neg (.int n))]⟩ 2 := by
    rw [h.tokens_minus]
    exact derives_neg rfl rfl (hn ▸ .unsigned h)
  exact Program.parse_eq_ok_of_derives hderives (by decide)

theorem value_eval_int (hlimit : 0 < limit) (env : Environment) :
    (Program.eval limit ⟨[.expr (.int n)]⟩ env).value = .int n := by
  simp [Program.eval, Stmt.evalAll, Stmt.eval, Expr.eval, Evaluation.enter, hlimit,
    Evaluation.visiting, Evaluation.done, Evaluation.andThen, Value.isSignal, Value.unwrapReturn]

theorem value_eval_neg
    {m : Integer} (hlimit : 1 < limit) (hm : n.toInt = -m.toInt) (env : Environment) :
    (Program.eval limit ⟨[.expr (.unary .neg (.int m))]⟩ env).value = .int n := by
  have hneg : m.neg? = some n := Integer.ofInt?_eq_some_iff.mpr hm
  have hlimit' : 0 < limit := Nat.lt_of_succ_lt hlimit
  simp [Program.eval, Stmt.evalAll, Stmt.eval, Expr.eval, Evaluation.enter, hlimit, hlimit',
    Evaluation.visiting, Evaluation.done, Evaluation.andThen, Value.isSignal, Value.unwrapReturn,
    UnaryOp.apply, UnaryOp.applyNeg, hneg, Value.ofResult]

/-! ## Literals out of range -/

namespace Parser

variable {t u : Token} {c d : List Token} {errors : List SyntaxError}

theorem settles_expression_of_leading
    {room : Nat} {weakest : Precedence}
    (h : Settles (leading (expression room) (block room)) c none d errors) :
    Settles (expression (room + 1) weakest) c none d errors :=
  (settles_visit weakest c).bind (h.bind_none _)

theorem settles_expression_badInteger
    (room : Nat) (weakest : Precedence) (ht : t.kind = .int)
    (hparse : Integer.parse? t.literal = none) :
    Settles (expression (room + 1) weakest) (t :: c) none c
      [⟨.badInteger t.literal, some t.position⟩] := by
  refine settles_expression_of_leading ?_
  refine (settles_next t c).bind ?_
  simp only [ht, hparse]
  exact settles_fail _ _ c

theorem settles_expression_minus
    (room : Nat) (weakest : Precedence) (ht : t.kind = .minus)
    (h : Settles (expression room .unary) c none d errors) :
    Settles (expression (room + 1) weakest) (t :: c) none d errors := by
  refine settles_expression_of_leading ?_
  refine (settles_next t c).bind ?_
  simp only [ht]
  exact h.bind_none _

theorem settles_statement_of_expression
    {room : Nat} (ht : startsExpression t.kind = true)
    (h : Settles (expression room .lowest) (t :: c) none d errors) :
    Settles (statement (expression room) (block room)) (t :: c) none d errors := by
  refine (settles_peek t c).bind ?_
  split
  · next hkind => exact absurd ht (by rw [hkind]; decide)
  · next hkind => exact absurd ht (by rw [hkind]; decide)
  · next hkind => exact absurd ht (by rw [hkind]; decide)
  · exact h.bind_none _

end Parser

/-- A text that is nothing but a broken statement is rejected for what is wrong
with that statement. -/
theorem Program.parse_of_settles_none
    {source : String} {t : Token} {c : List Token} {e : SyntaxError}
    (htokens : (TokenStream.ofSource source).tokens = t :: c) (ht : t.kind ≠ .eof)
    (h : Parser.Settles
      (Parser.statement (Parser.expression Parser.maxNesting) (Parser.block Parser.maxNesting))
      (t :: c) none [] [e])
    (he : e.cause ≠ .nestedTooDeeply) : Program.parse source = .error [e] := by
  obtain ⟨hvalue, hrest, herrors⟩ := h.orSkip ⟨[], (TokenStream.ofSource source).ending⟩
  have hstream : TokenStream.ofSource source =
      TokenStream.prepend (t :: c) ⟨[], (TokenStream.ofSource source).ending⟩ := by
    rw [TokenStream.prepend, List.append_nil, ← htokens]
  have hbody : (body (.ofSource source)).errors = [e] := by
    have hstops : Parser.endsProgram t.kind = false := decide_eq_false ht
    rw [hstream, body,
      Parser.sequence_apply_of_not_stops (Parser.consumes_statement Parser.maxNesting) rfl hstops,
      Parser.bind_apply_of_eq_some hvalue, hrest, herrors]
    rfl
  have hreported : SyntaxError.reported (read (.ofSource source)).errors = [e] := by
    rw [read_eq, hbody, SyntaxError.reported, if_neg he]
    rfl
  rw [parse, ofReading, hreported]

theorem parse_numeral_of_not_inRange
    (h : IsNumeral digits.toList) (hrange : ¬Integer.InRange (Decimal.value digits.toList)) :
    Program.parse digits = .error [⟨.badInteger digits, some ⟨1, 1⟩⟩] := by
  refine Program.parse_of_settles_none h.tokens nofun ?_ nofun
  exact Parser.settles_statement_of_expression rfl
    (Parser.settles_expression_badInteger _ _ rfl (h.parse?_eq_none hrange))

theorem parse_minus_numeral_of_not_inRange
    (h : IsNumeral digits.toList) (hrange : ¬Integer.InRange (Decimal.value digits.toList)) :
    Program.parse ("-" ++ digits) = .error [⟨.badInteger digits, some ⟨1, 2⟩⟩] := by
  refine Program.parse_of_settles_none h.tokens_minus nofun ?_ nofun
  refine Parser.settles_statement_of_expression rfl (Parser.settles_expression_minus _ _ rfl ?_)
  exact Parser.settles_expression_badInteger _ _ rfl (h.parse?_eq_none hrange)

/-! ## Integers -/

theorem parse_render_of_nonneg (hn : 0 ≤ n.toInt) :
    Program.parse n.render = .ok ⟨[.expr (.int n)]⟩ := by
  rw [Integer.render_of_nonneg hn]
  refine parse_numeral (isNumeral_repr _) ?_
  rw [Decimal.value_repr, Int.natAbs_of_nonneg hn]

/-- The digits of a negative integer are those of its opposite, which is in range
unless the integer is the least one. -/
theorem parse_render_of_neg (hn : n.toInt < 0) (hleast : n.toInt ≠ -9223372036854775808) :
    ∃ m : Integer, n.toInt = -m.toInt ∧
      Program.parse n.render = .ok ⟨[.expr (.unary .neg (.int m))]⟩ := by
  have hrange := n.inRange
  rw [Integer.InRange] at hrange
  have hopposite : Integer.InRange (-n.toInt) := by
    rw [Integer.InRange]
    omega
  refine ⟨⟨-n.toInt, hopposite⟩, (Int.neg_neg _).symm, ?_⟩
  rw [Integer.render_of_neg hn]
  refine parse_minus_numeral (isNumeral_repr _) ?_
  rw [Decimal.value_repr, Int.ofNat_natAbs_of_nonpos (Int.le_of_lt hn)]

theorem parse_render_least (hn : n.toInt = -9223372036854775808) :
    Program.parse n.render =
      .error [⟨.badInteger "9223372036854775808", some ⟨1, 2⟩⟩] := by
  have hneg : n.toInt < 0 := by omega
  have hdigits : n.toInt.natAbs.repr = "9223372036854775808" := by
    rw [hn]
    rfl
  rw [Integer.render_of_neg hneg, hdigits]
  refine parse_minus_numeral_of_not_inRange ?_ ?_
  · rw [← hdigits]
    exact isNumeral_repr _
  · rw [← hdigits, Decimal.value_repr, hn]
    decide

/-! ## Runs -/

theorem result_of_parse_int
    {source : String} (hparse : Program.parse source = .ok ⟨[.expr (.int n)]⟩)
    (hlimit : 0 < limit) (env : Environment) :
    (Run.ofSource limit source env).result = .ok (.int n) := by
  rw [(Run.ofSource_of_parse_eq_ok hparse limit env).1, value_eval_int hlimit]
  rfl

theorem exists_result_numeral
    (h : IsNumeral digits.toList) (hvalue : Decimal.value digits.toList ≤ 9223372036854775807)
    (hlimit : 0 < limit) (env : Environment) :
    ∃ n : Integer, n.toInt = Decimal.value digits.toList ∧
      (Run.ofSource limit digits env).result = .ok (.int n) := by
  have hrange : Integer.InRange (Decimal.value digits.toList) := by
    rw [Integer.InRange]
    omega
  exact ⟨⟨_, hrange⟩, rfl, result_of_parse_int (parse_numeral h rfl) hlimit env⟩

theorem result_numeral_of_lt
    (h : IsNumeral digits.toList) (hvalue : 9223372036854775807 < Decimal.value digits.toList)
    (env : Environment) :
    (Run.ofSource limit digits env).result =
      .error (.parse [⟨.badInteger digits, some ⟨1, 1⟩⟩]) := by
  have hrange : ¬Integer.InRange (Decimal.value digits.toList) := by
    rw [Integer.InRange]
    omega
  exact (Run.ofSource_of_parse_eq_error (parse_numeral_of_not_inRange h hrange) limit env).1

theorem result_render
    (hn : n.toInt ≠ -9223372036854775808) (hlimit : 1 < limit) (env : Environment) :
    (Run.ofSource limit n.render env).result = .ok (.int n) := by
  by_cases hneg : n.toInt < 0
  · obtain ⟨m, hm, hparse⟩ := parse_render_of_neg hneg hn
    rw [(Run.ofSource_of_parse_eq_ok hparse limit env).1, value_eval_neg hlimit hm]
    rfl
  · exact result_of_parse_int (parse_render_of_nonneg (Int.not_lt.mp hneg))
      (Nat.lt_of_succ_lt hlimit) env

/-- Digits of any number run to the number that they stand for if it is in range, and
otherwise the digits are the one thing reported.  The text of an integer runs to that
integer, unless it is the least one, whose digits are reported without their sign. -/
theorem numerals_run_exactly (env : Environment) :
    (∀ digits : String, IsNumeral digits.toList →
      (Decimal.value digits.toList ≤ 9223372036854775807 →
        ∃ n : Integer, n.toInt = Decimal.value digits.toList ∧
          (Run.ofSource Evaluation.defaultLimit digits env).result = .ok (.int n)) ∧
      (9223372036854775807 < Decimal.value digits.toList →
        ∃ e : SyntaxError,
          (Run.ofSource Evaluation.defaultLimit digits env).result = .error (.parse [e]) ∧
          e.message = "could not parse " ++ digits ++ " as integer" ∧
          e.position = some ⟨1, 1⟩)) ∧
    ∀ n : Integer,
      (n.toInt ≠ -9223372036854775808 →
        (Run.ofSource Evaluation.defaultLimit (Value.int n).render env).result = .ok (.int n)) ∧
      (n.toInt = -9223372036854775808 →
        (Run.ofSource Evaluation.defaultLimit (Value.int n).render env).result =
          .error (.parse [⟨.badInteger "9223372036854775808", some ⟨1, 2⟩⟩])) := by
  refine ⟨fun digits h => ⟨fun hvalue => ?_, fun hvalue => ?_⟩, fun n => ⟨fun hn => ?_, fun hn => ?_⟩⟩
  · exact exists_result_numeral h hvalue (by decide) env
  · exact ⟨_, result_numeral_of_lt h hvalue env, rfl, rfl⟩
  · exact result_render hn (by decide) env
  · exact (Run.ofSource_of_parse_eq_error (parse_render_least hn) _ env).1

/-- On both sides of the bound, with zeros in front and with a sign. -/
theorem numerals_run_exactly_at_bound :
    let env := Environment.empty.set "x" .null
    IsNumeral "0009223372036854775807".toList ∧
      Decimal.value "0009223372036854775807".toList = 9223372036854775807 ∧
    IsNumeral "9223372036854775808".toList ∧
      Decimal.value "9223372036854775808".toList = 9223372036854775808 ∧
    (∃ n : Integer, n.toInt = 9223372036854775807 ∧
      (Run.ofSource Evaluation.defaultLimit "0009223372036854775807" env).result =
        .ok (.int n)) ∧
    (∃ e : SyntaxError,
      (Run.ofSource Evaluation.defaultLimit "9223372036854775808" env).result =
        .error (.parse [e]) ∧
      e.message = "could not parse 9223372036854775808 as integer" ∧
      e.position = some ⟨1, 1⟩) ∧
    (Run.ofSource Evaluation.defaultLimit "-9223372036854775807" env).result =
      .ok (.int ⟨-9223372036854775807, by decide⟩) ∧
    (Run.ofSource Evaluation.defaultLimit "-9223372036854775808" env).result =
      .error (.parse [⟨.badInteger "9223372036854775808", some ⟨1, 2⟩⟩]) := by
  intro env
  have hnumeral : IsNumeral "0009223372036854775807".toList :=
    ⟨by decide, List.all_eq_true.mp rfl⟩
  have hvalue : Decimal.value "0009223372036854775807".toList = 9223372036854775807 := by
    rw [← Decimal.ofDigitChars_eq_value]
    decide +kernel
  have hnumeral' : IsNumeral "9223372036854775808".toList :=
    ⟨by decide, List.all_eq_true.mp rfl⟩
  have hvalue' : Decimal.value "9223372036854775808".toList = 9223372036854775808 := by
    rw [← Decimal.ofDigitChars_eq_value]
    decide +kernel
  obtain ⟨hdigits, hints⟩ := numerals_run_exactly env
  refine ⟨hnumeral, hvalue, hnumeral', hvalue', ?_, ?_, ?_, ?_⟩
  · obtain ⟨n, hn, hresult⟩ := (hdigits _ hnumeral).1 (Nat.le_of_eq hvalue)
    rw [hvalue] at hn
    exact ⟨n, hn, hresult⟩
  · exact (hdigits _ hnumeral').2 (by rw [hvalue']; decide)
  · have htext : (Value.int ⟨-9223372036854775807, by decide⟩).render =
        "-9223372036854775807" := by
      decide +kernel
    rw [← htext]
    exact (hints _).1 (by decide)
  · have htext : (Value.int ⟨-9223372036854775808, by decide⟩).render =
        "-9223372036854775808" := by
      decide +kernel
    rw [← htext]
    exact (hints _).2 rfl

end LetLang
