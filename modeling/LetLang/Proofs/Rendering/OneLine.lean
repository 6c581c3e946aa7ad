import LetLang.Proofs.Lexing.Spelling
import LetLang.SyntaxError
import LetLang.Value.Basic

/-!
# Texts on one line

What is shown is put together from fixed pieces, from numbers, and from names and
literals that were taken from a source text.  None of these has a line feed in it, so
each value, fault and syntax error is shown on one line, and texts that are joined by
line feeds can be told apart again.
-/

namespace LetLang

/-- The text has no line feed. -/
def IsLine (text : String) : Prop :=
  '\n' ∉ text.toList

instance : DecidablePred IsLine :=
  fun text => inferInstanceAs (Decidable ('\n' ∉ text.toList))

/-- The pieces of a text between its line feeds. -/
def lines (text : String) : List String :=
  (text.toList.splitOn '\n').map String.ofList

/-! ## Joined lines -/

theorem lines_intercalate
    {texts : List String} (hne : texts ≠ []) (h : ∀ text ∈ texts, IsLine text) :
    lines ("\n".intercalate texts) = texts := by
  have hpieces : ∀ piece ∈ texts.map String.toList, '\n' ∉ piece := by
    intro piece hpiece
    obtain ⟨text, htext, rfl⟩ := List.mem_map.mp hpiece
    exact h text htext
  have hsplit : ("\n".intercalate texts).toList.splitOn '\n' = texts.map String.toList := by
    rw [String.toList_intercalate]
    exact List.splitOn_intercalate '\n' hpieces (by simpa using hne)
  rw [lines, hsplit, List.map_map]
  simp [Function.comp_def]

theorem lines_of_isLine {text : String} (h : IsLine text) : lines text = [text] := by
  have hlines : lines ("\n".intercalate [text]) = [text] :=
    lines_intercalate (List.cons_ne_nil _ _) (by simpa using h)
  rwa [String.intercalate_singleton] at hlines

/-! ## Pieces of wordings -/

theorem IsLine.append {a b : String} (ha : IsLine a) (hb : IsLine b) : IsLine (a ++ b) := by
  rw [IsLine, String.toList_append, List.mem_append]
  exact not_or.mpr ⟨ha, hb⟩

theorem isLine_of_isWordChar {x : String} (h : ∀ c ∈ x.toList, isWordChar c = true) : IsLine x :=
  fun hx => absurd (h '\n' hx) (by decide)

theorem isLine_name {x : String} (hx : isName x = true) : IsLine x :=
  isLine_of_isWordChar (isWordChar_of_mem_name hx)

theorem IsNumeral.isLine {text : String} (h : IsNumeral text.toList) : IsLine text :=
  isLine_of_isWordChar h.isWordChar

theorem isLine_repr (n : Nat) : IsLine n.repr :=
  (isNumeral_repr n).isLine

theorem Integer.isLine_render (n : Integer) : IsLine n.render := by
  by_cases hn : n.toInt < 0
  · rw [render_of_neg hn]
    exact IsLine.append (by decide) (isLine_repr _)
  · rw [render_of_nonneg (Int.not_lt.mp hn)]
    exact isLine_repr _

theorem Position.isLine_render (p : Position) : IsLine p.render :=
  ((isLine_repr _).append (by decide)).append (isLine_repr _)

theorem TokenKind.isLine_name (kind : TokenKind) : IsLine kind.name := by
  have htable : ∀ kind ∈ all, IsLine kind.name := by
    decide
  exact htable kind kind.mem_all

theorem UnaryOp.isLine_symbol (op : UnaryOp) : IsLine op.symbol := by
  cases op
  all_goals decide

theorem BinaryOp.isLine_symbol (op : BinaryOp) : IsLine op.symbol := by
  have htable : ∀ op ∈ all, IsLine op.symbol := by
    decide
  exact htable op op.mem_all

theorem ValueType.isLine_name (type : ValueType) : IsLine type.name := by
  cases type
  all_goals decide

/-! ## Syntax errors -/

/-- The cause is one of the language, and a literal in it is a numeral. -/
def SyntaxError.Cause.IsWorded : SyntaxError.Cause → Prop
  | unexpected _ _ | noExpression _ | nestedTooDeeply => True
  | badInteger literal => IsNumeral literal.toList
  | stated _ => False

theorem SyntaxError.Cause.IsWorded.isLine_message
    {cause : SyntaxError.Cause} (h : cause.IsWorded) : IsLine cause.message := by
  cases cause with
  | unexpected expected got =>
      exact (((IsLine.append (by decide) expected.isLine_name).append (by decide)).append
        got.isLine_name).append (by decide)
  | noExpression kind =>
      exact (IsLine.append (by decide) kind.isLine_name).append (by decide)
  | badInteger literal =>
      have hliteral : IsNumeral literal.toList := h
      exact (IsLine.append (by decide) hliteral.isLine).append (by decide)
  | nestedTooDeeply => exact (by decide : IsLine "expression nested too deeply")
  | stated message => exact h.elim

theorem SyntaxError.isLine_render
    {e : SyntaxError} (h : e.cause.IsWorded) : IsLine e.render := by
  obtain ⟨cause, _ | p⟩ := e
  · exact h.isLine_message
  · exact ((h.isLine_message.append (by decide)).append p.isLine_render).append (by decide)

/-! ## Values and faults -/

/-- Whether a fault is one of the language, and a name in it is a proper one. -/
def Fault.isWorded : Fault → Bool
  | unbound name => isName name
  | stated _ => false
  | _ => true

theorem Fault.isLine_message {fault : Fault} (h : fault.isWorded = true) :
    IsLine fault.message := by
  cases fault with
  | unbound name => exact IsLine.append (by decide) (isLine_name h)
  | unaryOperand op operand =>
      exact (IsLine.append (by decide) op.isLine_symbol).append operand.isLine_name
  | mismatch op left right =>
      exact ((((IsLine.append (by decide) left.isLine_name).append (by decide)).append
        op.isLine_symbol).append (by decide)).append right.isLine_name
  | binaryOperands op left right =>
      exact ((((IsLine.append (by decide) left.isLine_name).append (by decide)).append
        op.isLine_symbol).append (by decide)).append right.isLine_name
  | divisionByZero dividend =>
      exact (IsLine.append (by decide) dividend.isLine_render).append (by decide)
  | overflow op left right =>
      exact ((((IsLine.append (by decide) left.isLine_render).append (by decide)).append
        op.isLine_symbol).append (by decide)).append right.isLine_render
  | negationOverflow operand =>
      exact (IsLine.append (by decide) operand.isLine_render).append (by decide)
  | tooDeep limit => exact IsLine.append (by decide) (isLine_repr limit)
  | stated message => cases h

end LetLang
