import LetLang.Proofs.Parser.Relational
import Mathlib.Data.List.Forall2

/-!
# Parsers are blind to positions

Take two streams of tokens that correspond one by one, in kind and in text, but
maybe not in position.  What is read off them is the same, and the errors that
are found have the same causes and stand at corresponding tokens.

Which tokens correspond is left open.  A narrow choice says more about the
positions of the errors, and the choice that relates every two tokens of the
same kind and text says that positions have no influence at all.
-/

namespace LetLang

/-- Two tokens of the same kind and the same text. -/
def Token.SameText (t t' : Token) : Prop :=
  t.kind = t'.kind ∧ t.literal = t'.literal

/-- The tokens of two streams correspond, and so do the markers behind them. -/
structure TokenStream.Alike (V : Token → Token → Prop) (s s' : TokenStream) : Prop where
  tokens : List.Forall₂ V s.tokens s'.tokens
  ending : V (Token.eof s.ending) (Token.eof s'.ending)

/-- Two errors have the same cause and stand at corresponding tokens. -/
structure SyntaxError.Alike (V : Token → Token → Prop) (e e' : SyntaxError) : Prop where
  cause : e.cause = e'.cause
  position : ∃ t t', V t t' ∧ e.position = some t.position ∧ e'.position = some t'.position

/-- Two readings differ in the positions of corresponding tokens only. -/
structure Reading.Alike (V : Token → Token → Prop) {α : Type} (r r' : Reading α) : Prop where
  value : r.value = r'.value
  rest : r.rest.Alike V r'.rest
  errors : List.Forall₂ (SyntaxError.Alike V) r.errors r'.errors
  visits : r.visits = r'.visits

variable {V : Token → Token → Prop}

namespace TokenStream.Alike

variable {s s' : TokenStream} (h : s.Alike V s')
include h

theorem head : V s.head s'.head := by
  obtain ⟨tokens, ending⟩ := s
  obtain ⟨tokens', ending'⟩ := s'
  cases h.tokens with
  | nil => exact h.ending
  | cons hhead _ => exact hhead

theorem tail : s.tail.Alike V s'.tail := by
  refine ⟨?_, h.ending⟩
  simpa [List.drop_one] using List.forall₂_drop 1 h.tokens

theorem afterEof (hV : ∀ t t', V t t' → t.SameText t') : s.afterEof.Alike V s'.afterEof := by
  refine ⟨?_, h.ending⟩
  have hdrop : ∀ {ts us : List Token}, List.Forall₂ V ts us →
      List.Forall₂ V (ts.dropWhile (·.kind ≠ .eof)).tail (us.dropWhile (·.kind ≠ .eof)).tail := by
    intro ts us hts
    induction hts with
    | nil => exact .nil
    | @cons t u ts us htu hts ih =>
        have hkind : t.kind = u.kind := (hV t u htu).1
        by_cases heof : u.kind = .eof
        · simpa [List.dropWhile_cons, hkind, heof] using hts
        · simpa [List.dropWhile_cons, hkind, heof] using ih
  exact hdrop h.tokens

end TokenStream.Alike

namespace Parser

/-- On corresponding streams two parsers have alike readings. -/
def Alike (V : Token → Token → Prop) {α : Type} (p q : Parser α) : Prop :=
  ∀ s s', s.Alike V s' → (p s).Alike V (q s')

theorem Alike.bind
    {α β : Type} {p q : Parser α} {f g : α → Parser β}
    (hpq : p.Alike V q) (hfg : ∀ a, (f a).Alike V (g a)) : (p >>= f).Alike V (q >>= g) := by
  intro s s' h
  have hfirst := hpq s s' h
  cases hvalue : (p s).value with
  | none =>
      have hvalue' : (q s').value = none := by rw [← hfirst.value, hvalue]
      rw [bind_apply_of_eq_none hvalue, bind_apply_of_eq_none hvalue']
      exact ⟨rfl, hfirst.rest, hfirst.errors, hfirst.visits⟩
  | some a =>
      have hvalue' : (q s').value = some a := by rw [← hfirst.value, hvalue]
      have hsecond := hfg a _ _ hfirst.rest
      rw [bind_apply_of_eq_some hvalue, bind_apply_of_eq_some hvalue']
      refine ⟨hsecond.value, hsecond.rest, ?_, ?_⟩
      · exact List.rel_append hfirst.errors hsecond.errors
      · rw [hfirst.visits, hsecond.visits]

theorem Alike.next_bind
    {α : Type} {f g : Token → Parser α} (hfg : ∀ t t', V t t' → (f t).Alike V (g t')) :
    (next >>= f).Alike V (next >>= g) := by
  intro s s' h
  have hsecond := hfg _ _ h.head _ _ h.tail
  exact ⟨hsecond.value, hsecond.rest, hsecond.errors, hsecond.visits⟩

theorem relational_alike (hV : ∀ t t', V t t' → t.SameText t') :
    Relational V (fun p q => p.Alike V q) where
  kind htt' := (hV _ _ htt').1
  literal htt' := (hV _ _ htt').2
  pure a s s' h := ⟨rfl, h, .nil, rfl⟩
  peek s s' h := ⟨congrArg some (hV _ _ h.head).1, h, .nil, rfl⟩
  next := Alike.next_bind
  behind hpq := hpq
  bindBehind := Alike.bind
  fail {α cause t t'} _ htt' s s' h :=
    ⟨rfl, h, .cons ⟨rfl, t, t', htt', rfl, rfl⟩ .nil, rfl⟩
  report {cause t t'} _ htt' s s' h :=
    ⟨rfl, h, .cons ⟨rfl, t, t', htt', rfl, rfl⟩ .nil, rfl⟩
  require kind s s' h := by
    have hkind : s.head.kind = s'.head.kind := (hV _ _ h.head).1
    unfold require
    rw [hkind]
    split
    · exact ⟨rfl, h, .nil, rfl⟩
    · exact ⟨rfl, h, .cons ⟨rfl, _, _, h.head, rfl, rfl⟩ .nil, rfl⟩
  skipIf kind s s' h := by
    have hkind : s.head.kind = s'.head.kind := (hV _ _ h.head).1
    unfold skipIf
    rw [hkind]
    split
    · exact ⟨rfl, h.tail, .nil, rfl⟩
    · exact ⟨rfl, h, .nil, rfl⟩
  visit weakest s s' h := by
    refine ⟨rfl, h, .nil, ?_⟩
    simp only [visit, (hV _ _ h.head).1]
  refuse s s' h := ⟨rfl, h.afterEof hV, .cons ⟨rfl, _, _, h.head, rfl, rfl⟩ .nil, rfl⟩
  bind := Alike.bind
  orSkip {α p q} hpq s s' h := by
    have hreading := hpq s s' h
    exact ⟨congrArg some hreading.value, hreading.rest, hreading.errors, hreading.visits⟩

/-- Whatever correspondence of tokens keeps kinds and texts, all parsers respect
it. -/
theorem respected_alike (hV : ∀ t t', V t t' → t.SameText t') :
    Respected V (fun p q => p.Alike V q) := by
  refine (relational_alike hV).respected ?_
  intro α p q hpq s s' h
  have hlength : s.tokens.length = s'.tokens.length := h.tokens.length_eq
  unfold bounded
  rw [hlength]
  exact hpq _ s s' h

end Parser

/-- Programs are read alike off corresponding streams. -/
theorem Program.alike_read
    (hV : ∀ t t', V t t' → t.SameText t') {s s' : TokenStream} (h : s.Alike V s') :
    (Program.read s).Alike V (Program.read s') :=
  (Parser.respected_alike hV).program Parser.maxNesting s s' h

end LetLang
