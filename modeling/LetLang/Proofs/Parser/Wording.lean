import LetLang.Proofs.Parser.Lookahead
import LetLang.Proofs.Parser.Shape
import LetLang.Proofs.Rendering.OneLine

/-!
# The wording of syntax errors

An error quotes at most one piece of the source text, the digits of a literal that
is out of range.  It is reported right behind the token with these digits, so from
tokens that are spelled properly the parsers find errors with numerals in them and
no other quotations.
-/

namespace LetLang

theorem Spells.isNumeral {digits : List Char} (h : Spells .int digits) : IsNumeral digits := by
  obtain ⟨c, tail, hdigits, -⟩ := h.exists_cons
  refine ⟨?_, fun d hd => isDigit_iff.mpr (h.isDigit_of_mem rfl d hd)⟩
  rw [hdigits]
  exact List.cons_ne_nil c tail

theorem SyntaxError.Cause.IsAbout.isWorded
    {t : Token} {cause : SyntaxError.Cause} (h : cause.IsAbout t)
    (ht : t.kind ≠ .eof → Spells t.kind t.literal.toList) : cause.IsWorded := by
  cases cause with
  | badInteger literal =>
      obtain ⟨hkind, rfl⟩ : t.kind = .int ∧ literal = t.literal := h
      rw [hkind] at ht
      exact (ht (by decide)).isNumeral
  | stated message => exact h.elim
  | _ => trivial

namespace Parser

variable {α β : Type}

/-- From tokens that are spelled properly, `p` finds errors that are worded
properly. -/
def Words (p : Parser α) : Prop :=
  ∀ s, s.IsSpelled → (p s).rest.IsSpelled ∧ ∀ e ∈ (p s).errors, e.cause.IsWorded

theorem Words.bind
    {p : Parser α} {f : α → Parser β} (hp : Words p) (hf : ∀ a, Words (f a)) :
    Words (p >>= f) := by
  intro s hs
  obtain ⟨hrest, hworded⟩ := hp s hs
  cases hvalue : (p s).value with
  | none =>
      rw [bind_apply_of_eq_none hvalue]
      exact ⟨hrest, hworded⟩
  | some a =>
      rw [bind_apply_of_eq_some hvalue]
      obtain ⟨hrest', hworded'⟩ := hf a _ hrest
      exact ⟨hrest', List.forall_mem_append.mpr ⟨hworded, hworded'⟩⟩

/-- A single step finds one error at most. -/
theorem Advances.words
    {p : Parser α} (hp : Advances p)
    (h : ∀ s, ∃ cause position, (p s).errors ⊆ [⟨cause, position⟩] ∧ cause.IsWorded) :
    Words p := by
  intro s hs
  refine ⟨fun t ht => hs t ((hp s).2.subset ht), fun e he => ?_⟩
  obtain ⟨cause, position, hsubset, hcause⟩ := h s
  obtain rfl := List.mem_singleton.mp (hsubset he)
  exact hcause

theorem Advances.words_of_errors_eq_nil
    {p : Parser α} (hp : Advances p) (h : ∀ s, (p s).errors = []) : Words p := by
  refine hp.words fun s => ⟨.nestedTooDeeply, none, ?_, trivial⟩
  rw [h s]
  exact List.nil_subset _

theorem words_next_bind
    {f : Token → Parser α}
    (hf : ∀ t, (t.kind ≠ .eof → Spells t.kind t.literal.toList) → Words (f t)) :
    Words (next >>= f) := by
  intro s hs
  have htail : s.tail.IsSpelled :=
    fun t ht => hs t ((compositional_advances.next s).2.subset ht)
  rw [bind_apply_of_eq_some (a := s.head) rfl]
  exact hf s.head hs.spells_head s.tail htail

theorem relational_words :
    Relational Eq (fun p _ => Words p)
      (fun t _ p _ => (t.kind ≠ .eof → Spells t.kind t.literal.toList) → Words p) where
  kind htt' := by rw [htt']
  literal htt' := by rw [htt']
  pure a := (compositional_advances.pure a).words_of_errors_eq_nil fun _ => rfl
  peek := compositional_advances.peek.words_of_errors_eq_nil fun _ => rfl
  next hf := words_next_bind fun t => hf t t rfl
  behind hp _ := hp
  fail {α cause t t'} hcause _ ht :=
    (compositional_advances.fail cause t.position hcause.isLocal).words
      fun _ => ⟨cause, some t.position, List.Subset.refl _, hcause.isWorded ht⟩
  report {cause t t'} hcause _ ht :=
    (compositional_advances.report cause t.position hcause.isLocal).words
      fun _ => ⟨cause, some t.position, List.Subset.refl _, hcause.isWorded ht⟩
  bindBehind hp hf ht := (hp ht).bind hf
  require kind := by
    refine (compositional_advances.require kind).words fun s => ?_
    refine ⟨.unexpected kind s.head.kind, some s.head.position, ?_, trivial⟩
    unfold require
    split
    · exact List.nil_subset _
    · exact List.Subset.refl _
  skipIf kind := (compositional_advances.skipIf kind).words_of_errors_eq_nil fun _ => rfl
  visit weakest := (compositional_advances.visit weakest).words_of_errors_eq_nil fun _ => rfl
  refuse :=
    compositional_advances.refuse.words
      fun s => ⟨.nestedTooDeeply, some s.head.position, List.Subset.refl _, trivial⟩
  bind := Words.bind
  orSkip hp := hp

theorem words_program (room : Nat) : Words (program room) := by
  refine (relational_words.respected ?_).program room
  intro α p _ hp s
  exact hp s.tokens.length s

end Parser

/-! ## Source texts -/

/-- A text is rejected for the errors that are reported, and there is one. -/
theorem Program.errors_of_parse_eq_error
    {source : String} {errors : List SyntaxError} (h : Program.parse source = .error errors) :
    errors ≠ [] ∧ errors = SyntaxError.reported (read (.ofSource source)).errors := by
  obtain ⟨statements, hvalue⟩ := exists_value_read (.ofSource source)
  rw [parse, ofReading, hvalue] at h
  generalize SyntaxError.reported (read (.ofSource source)).errors = reported at h ⊢
  rcases reported with _ | ⟨e, others⟩
  · cases h
  · obtain rfl := Except.error.inj h
    exact ⟨List.cons_ne_nil e others, rfl⟩

/-- Every error of a source text is shown on a line. -/
theorem Program.isLine_of_parse_eq_error
    {source : String} {errors : List SyntaxError} (h : Program.parse source = .error errors) :
    ∀ e ∈ errors, IsLine e.render := by
  intro e he
  obtain ⟨-, rfl⟩ := errors_of_parse_eq_error h
  have hfound := (SyntaxError.reported_prefix _).subset he
  exact SyntaxError.isLine_render
    ((Parser.words_program Parser.maxNesting _ (TokenStream.isSpelled_ofSource source)).2 e hfound)

end LetLang
