import LetLang.Proofs.Lexing.Segmentation
import LetLang.Run

/-!
# Layout does not matter

Two texts may differ in the blanks between their tokens.  Their positions differ
then, but positions only go into errors, so the texts are read as the same
program or rejected for the same causes, and their runs have the same results.
Every text has such a twin in which a single space stands between neighbouring
tokens.
-/

namespace LetLang

/-- The tokens of two texts agree in kind and text. -/
def SameTokens (a b : String) : Prop :=
  List.Forall₂ Token.SameText (TokenStream.ofSource a).tokens (TokenStream.ofSource b).tokens

/-! ## Errors -/

section Errors

variable {V : Token → Token → Prop} {errors errors' : List SyntaxError}
  (h : List.Forall₂ (SyntaxError.Alike V) errors errors')
include h

theorem SyntaxError.alike_reported :
    List.Forall₂ (SyntaxError.Alike V) (reported errors) (reported errors') := by
  induction h with
  | nil => exact .nil
  | @cons e e' errors errors' he _ ih =>
      rw [reported, reported, he.cause]
      split
      · exact .cons he .nil
      · exact .cons he ih

theorem SyntaxError.map_message_eq : errors.map message = errors'.map message := by
  induction h with
  | nil => rfl
  | cons he _ ih => rw [List.map_cons, List.map_cons, ih, message, message, he.cause]

end Errors

/-- Readings that differ in positions only give the same program, or errors with
the same messages. -/
theorem Program.ofReading_of_alike
    {V : Token → Token → Prop} {r r' : Reading Program} (h : r.Alike V r') :
    (∃ p, ofReading r = .ok p ∧ ofReading r' = .ok p) ∨
      ∃ errors errors', ofReading r = .error errors ∧ ofReading r' = .error errors' ∧
        errors.map SyntaxError.message = errors'.map SyntaxError.message := by
  have hreported := SyntaxError.alike_reported h.errors
  have hmessages := SyntaxError.map_message_eq hreported
  unfold ofReading
  rw [← h.value]
  revert hreported hmessages
  generalize SyntaxError.reported r.errors = errors
  generalize SyntaxError.reported r'.errors = errors'
  intro hreported hmessages
  cases hreported with
  | nil =>
      cases r.value with
      | none => exact Or.inr ⟨[], [], rfl, rfl, rfl⟩
      | some p => exact Or.inl ⟨p, rfl, rfl⟩
  | cons _ _ => exact Or.inr ⟨_, _, rfl, rfl, hmessages⟩

/-! ## Texts with the same tokens -/

section Twins

variable {a b : String} (h : SameTokens a b)
include h

theorem parse_of_sameTokens :
    (∃ p, Program.parse a = .ok p ∧ Program.parse b = .ok p) ∨
      ∃ errors errors', Program.parse a = .error errors ∧ Program.parse b = .error errors' ∧
        errors.map SyntaxError.message = errors'.map SyntaxError.message := by
  have halike : (TokenStream.ofSource a).Alike Token.SameText (TokenStream.ofSource b) :=
    ⟨h, rfl, rfl⟩
  exact Program.ofReading_of_alike (Program.alike_read (fun _ _ htt' => htt') halike)

theorem run_of_sameTokens (limit : Nat) (env : Environment) :
    (Run.ofSource limit a env).env = (Run.ofSource limit b env).env ∧
      ((∃ v, (Run.ofSource limit a env).result = .ok v ∧
          (Run.ofSource limit b env).result = .ok v) ∨
        (∃ fault, (Run.ofSource limit a env).result = .error (.runtime fault) ∧
          (Run.ofSource limit b env).result = .error (.runtime fault)) ∨
        ∃ errors errors', (Run.ofSource limit a env).result = .error (.parse errors) ∧
          (Run.ofSource limit b env).result = .error (.parse errors') ∧
          errors.map SyntaxError.message = errors'.map SyntaxError.message) := by
  rcases parse_of_sameTokens h with ⟨p, ha, hb⟩ | ⟨errors, errors', ha, hb, hmessages⟩
  · obtain ⟨hresult, henv⟩ := Run.ofSource_of_parse_eq_ok ha limit env
    obtain ⟨hresult', henv'⟩ := Run.ofSource_of_parse_eq_ok hb limit env
    refine ⟨henv.trans henv'.symm, ?_⟩
    rw [hresult, hresult']
    cases (p.eval limit env).value with
    | err fault => exact Or.inr (Or.inl ⟨fault, rfl, rfl⟩)
    | _ => exact Or.inl ⟨_, rfl, rfl⟩
  · obtain ⟨hresult, henv⟩ := Run.ofSource_of_parse_eq_error ha limit env
    obtain ⟨hresult', henv'⟩ := Run.ofSource_of_parse_eq_error hb limit env
    refine ⟨henv.trans henv'.symm, ?_⟩
    exact Or.inr (Or.inr ⟨errors, errors', hresult, hresult', hmessages⟩)

end Twins

/-! ## Single spaces -/

/-- The tokens of a text with a single space between neighbours. -/
def respaced (source : String) : String :=
  " ".intercalate ((TokenStream.ofSource source).tokens.map Token.literal)

/-- A token by itself is scanned as this token. -/
theorem Spells.scan_eq
    {kind : TokenKind} {literal : String} (h : Spells kind literal.toList) (p : Position) :
    scan 0 p literal.toList = [⟨kind, literal, p⟩] := by
  obtain ⟨c, tail, htext, hc, -⟩ := h.exists_cons
  rw [htext] at h
  have hfirst : Lexeme.first c (tail ++ []) = ⟨kind, c, tail⟩ := by
    rw [List.append_nil]
    exact h.first_eq
  have hscan := scan_cons_of_first_eq hc hfirst p
  rw [List.append_nil, ← htext, String.ofList_toList, scan] at hscan
  exact hscan

theorem sameText_scan_respaced
    {ts : List Token} (hts : ∀ t ∈ ts, Spells t.kind t.literal.toList) (p : Position) :
    List.Forall₂ Token.SameText ts (scan 0 p (" ".intercalate (ts.map Token.literal)).toList) := by
  induction ts generalizing p with
  | nil => exact .nil
  | cons t ts ih =>
      obtain ⟨ht, hts⟩ := List.forall_mem_cons.mp hts
      cases ts with
      | nil =>
          rw [List.map_singleton, String.intercalate_singleton, ht.scan_eq]
          exact .cons ⟨rfl, rfl⟩ .nil
      | cons u ts =>
          rw [List.map_cons, List.map_cons, String.intercalate_cons_cons,
            scan_append_separator (w := ' ') rfl rfl, ht.scan_eq]
          exact .cons ⟨rfl, rfl⟩ (ih hts _)

theorem sameTokens_respaced (source : String) : SameTokens source (respaced source) := by
  have hspells : ∀ t ∈ (TokenStream.ofSource source).tokens, Spells t.kind t.literal.toList :=
    fun t ht => (segmented_scan [] source.toList).spells_of_mem ht
  exact sameText_scan_respaced hspells .start

/-- Texts with the same tokens are read as the same program or rejected with the
same messages, and they run alike in every environment.  Single spaces between
the tokens of a text give a text with the same tokens. -/
theorem layout_has_no_effect :
    (∀ a b : String, SameTokens a b →
      ((∃ p, Program.parse a = .ok p ∧ Program.parse b = .ok p) ∨
        ∃ errors errors', Program.parse a = .error errors ∧ Program.parse b = .error errors' ∧
          errors.map SyntaxError.message = errors'.map SyntaxError.message) ∧
      ∀ (limit : Nat) (env : Environment),
        (Run.ofSource limit a env).env = (Run.ofSource limit b env).env ∧
        ((∃ v, (Run.ofSource limit a env).result = .ok v ∧
            (Run.ofSource limit b env).result = .ok v) ∨
          (∃ fault, (Run.ofSource limit a env).result = .error (.runtime fault) ∧
            (Run.ofSource limit b env).result = .error (.runtime fault)) ∨
          ∃ errors errors', (Run.ofSource limit a env).result = .error (.parse errors) ∧
            (Run.ofSource limit b env).result = .error (.parse errors') ∧
            errors.map SyntaxError.message = errors'.map SyntaxError.message)) ∧
    (∀ source : String, SameTokens source (respaced source)) := by
  constructor
  · intro a b h
    exact ⟨parse_of_sameTokens h, run_of_sameTokens h⟩
  · exact sameTokens_respaced

/-- Blanks move an error to another place and change nothing else. -/
theorem layout_has_no_effect_on_illegal_operand :
    ∃ a b : String, a = "let x=1;x+@" ∧ b = "let\n\n x = 1 ; x\t+ @\n" ∧ SameTokens a b ∧
      Program.parse a = .error [⟨.noExpression .illegal, some ⟨1, 11⟩⟩] ∧
      Program.parse b = .error [⟨.noExpression .illegal, some ⟨3, 14⟩⟩] ∧
      ((∃ p, Program.parse a = .ok p ∧ Program.parse b = .ok p) ∨
        ∃ errors errors', Program.parse a = .error errors ∧ Program.parse b = .error errors' ∧
          errors.map SyntaxError.message = errors'.map SyntaxError.message) := by
  have h : SameTokens "let x=1;x+@" "let\n\n x = 1 ; x\t+ @\n" := by
    unfold SameTokens Token.SameText
    decide
  refine ⟨_, _, rfl, rfl, h, rfl, rfl, ?_⟩
  exact (layout_has_no_effect.1 _ _ h).1

end LetLang
