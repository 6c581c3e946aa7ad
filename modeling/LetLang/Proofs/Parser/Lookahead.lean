import LetLang.Proofs.Parser.Outcome

/-!
# How far a parser looks

Some tokens are known to be next, and an unknown stream follows them.  A parser
settles on the known tokens if it is done before it has looked at that stream:
its value, its errors and the place where it stops are then the same whatever
follows.  The nesting limit is the one event that reaches further, since the
input is dropped up to its end.
-/

namespace LetLang

/-! ## Errors about the nesting -/

namespace SyntaxError

/-- One of the errors is about the nesting. -/
def HitsLimit (errors : List SyntaxError) : Prop :=
  ∃ e ∈ errors, e.cause = .nestedTooDeeply

instance (errors : List SyntaxError) : Decidable (HitsLimit errors) :=
  inferInstanceAs (Decidable (∃ e ∈ errors, e.cause = .nestedTooDeeply))

variable {before after errors : List SyntaxError}

theorem not_hitsLimit_nil : ¬HitsLimit [] := by
  rintro ⟨e, he, -⟩
  exact absurd he List.not_mem_nil

theorem hitsLimit_cons {e : SyntaxError} :
    HitsLimit (e :: errors) ↔ e.cause = .nestedTooDeeply ∨ HitsLimit errors := by
  simp [HitsLimit]

theorem hitsLimit_append :
    HitsLimit (before ++ after) ↔ HitsLimit before ∨ HitsLimit after := by
  simp [HitsLimit, or_and_right, exists_or]

theorem not_hitsLimit_of_isLocal
    {cause : Cause} (hcause : cause.isLocal = true) (position : Option Position) :
    ¬HitsLimit [⟨cause, position⟩] := by
  rw [hitsLimit_cons]
  rintro (hnested | hnil)
  · rw [show cause = .nestedTooDeeply from hnested] at hcause
    contradiction
  · exact not_hitsLimit_nil hnil

theorem reported_prefix (errors : List SyntaxError) : reported errors <+: errors := by
  induction errors with
  | nil => exact List.prefix_refl _
  | cons e errors ih =>
      unfold reported
      split
      · exact List.cons_prefix_cons.mpr ⟨rfl, List.nil_prefix⟩
      · exact List.cons_prefix_cons.mpr ⟨rfl, ih⟩

theorem hitsLimit_reported (h : HitsLimit errors) : HitsLimit (reported errors) := by
  induction errors with
  | nil => exact absurd h not_hitsLimit_nil
  | cons e errors ih =>
      unfold reported
      split
      · next he => exact hitsLimit_cons.mpr (Or.inl he)
      · next he => exact hitsLimit_cons.mpr (Or.inr (ih ((hitsLimit_cons.mp h).resolve_left he)))

/-- Nothing is reported behind an error about the nesting. -/
theorem not_hitsLimit_dropLast_reported (errors : List SyntaxError) :
    ¬HitsLimit (reported errors).dropLast := by
  induction errors with
  | nil => exact not_hitsLimit_nil
  | cons e errors ih =>
      unfold reported
      split
      · exact not_hitsLimit_nil
      · next he =>
        by_cases hnil : reported errors = []
        · rw [hnil]
          exact not_hitsLimit_nil
        · rw [List.dropLast_cons_of_ne_nil hnil, hitsLimit_cons]
          exact not_or.mpr ⟨he, ih⟩

theorem reported_append_of_not_hitsLimit (h : ¬HitsLimit before) :
    reported (before ++ after) = before ++ reported after := by
  induction before with
  | nil => rfl
  | cons e before ih =>
      rw [hitsLimit_cons] at h
      obtain ⟨he, hbefore⟩ := not_or.mp h
      rw [List.cons_append, reported, if_neg he, ih hbefore, List.cons_append]

theorem reported_eq_self (h : ¬HitsLimit errors) : reported errors = errors := by
  have happend : reported (errors ++ []) = errors ++ reported [] :=
    reported_append_of_not_hitsLimit h
  simpa [reported] using happend

theorem reported_append_of_hitsLimit (h : HitsLimit before) :
    reported (before ++ after) = reported before := by
  induction before with
  | nil => exact absurd h not_hitsLimit_nil
  | cons e before ih =>
      by_cases he : e.cause = .nestedTooDeeply
      · simp only [List.cons_append, reported, if_pos he]
      · have hbefore : HitsLimit before := (hitsLimit_cons.mp h).resolve_left he
        simp only [List.cons_append, reported, if_neg he, ih hbefore]

end SyntaxError

/-- One of the errors found is about the nesting. -/
abbrev Reading.HitsLimit {α : Type} (r : Reading α) : Prop :=
  SyntaxError.HitsLimit r.errors

namespace Parser

variable {α β : Type} {p q : Parser α} {f : α → Parser β} {c d : List Token}

theorem hitsLimit_bind {s : TokenStream} (h : (p s).HitsLimit) : ((p >>= f) s).HitsLimit := by
  cases hvalue : (p s).value with
  | none =>
      rw [bind_apply_of_eq_none hvalue]
      exact h
  | some a =>
      rw [bind_apply_of_eq_some hvalue]
      exact SyntaxError.hitsLimit_append.mpr (Or.inl h)

/-! ## Settled outcomes -/

/-- With the tokens `c` in front of any stream, `p` comes to `value`, stops in
front of the tokens `d` and that stream, and finds these errors. -/
def Settles (p : Parser α) (c : List Token) (value : Option α) (d : List Token)
    (errors : List SyntaxError) : Prop :=
  ∀ s : TokenStream,
    (p (s.prepend c)).value = value ∧ (p (s.prepend c)).rest = s.prepend d ∧
      (p (s.prepend c)).errors = errors

theorem settles_pure (a : α) (c : List Token) : Settles (pure a) c (some a) c [] :=
  fun _ => ⟨rfl, rfl, rfl⟩

theorem settles_fail (cause : SyntaxError.Cause) (position : Position) (c : List Token) :
    Settles (fail cause position : Parser α) c none c [⟨cause, some position⟩] :=
  fun _ => ⟨rfl, rfl, rfl⟩

theorem settles_report (cause : SyntaxError.Cause) (position : Position) (c : List Token) :
    Settles (report cause position) c (some ()) c [⟨cause, some position⟩] :=
  fun _ => ⟨rfl, rfl, rfl⟩

theorem settles_visit (weakest : Precedence) (c : List Token) :
    Settles (visit weakest) c (some ()) c [] :=
  fun _ => ⟨rfl, rfl, rfl⟩

theorem settles_peek (t : Token) (c : List Token) :
    Settles peek (t :: c) (some t.kind) (t :: c) [] :=
  fun _ => ⟨rfl, rfl, rfl⟩

theorem settles_next (t : Token) (c : List Token) : Settles next (t :: c) (some t) c [] :=
  fun _ => ⟨rfl, rfl, rfl⟩

theorem settles_skipIf (kind : TokenKind) (t : Token) (c : List Token) :
    Settles (skipIf kind) (t :: c) (some ()) (if t.kind = kind then c else t :: c) [] := by
  intro s
  refine ⟨rfl, ?_, rfl⟩
  by_cases h : t.kind = kind
  · simp [skipIf, h]
  · simp [skipIf, h]

theorem settles_require_of_eq
    {kind : TokenKind} {t : Token} (h : t.kind = kind) (c : List Token) :
    Settles (require kind) (t :: c) (some ()) (t :: c) [] := by
  intro s
  simp [require, h]

theorem settles_require_of_ne
    {kind : TokenKind} {t : Token} (h : t.kind ≠ kind) (c : List Token) :
    Settles (require kind) (t :: c) none (t :: c)
      [⟨.unexpected kind t.kind, some t.position⟩] := by
  intro s
  simp [require, h]

namespace Settles

variable {value : Option α} {value' : Option β} {d' : List Token}
  {errors errors' : List SyntaxError} {a : α}

theorem congr
    (hq : Settles q c value d errors)
    (h : ∀ s : TokenStream, p (s.prepend c) = q (s.prepend c)) :
    Settles p c value d errors := by
  intro s
  rw [h s]
  exact hq s

theorem bind_none (hp : Settles p c none d errors) (f : α → Parser β) :
    Settles (p >>= f) c none d errors := by
  intro s
  obtain ⟨hvalue, hrest, herrors⟩ := hp s
  rw [bind_apply_of_eq_none hvalue]
  exact ⟨rfl, hrest, herrors⟩

theorem bind
    (hp : Settles p c (some a) d errors) (hf : Settles (f a) d value' d' errors') :
    Settles (p >>= f) c value' d' (errors ++ errors') := by
  intro s
  obtain ⟨hvalue, hrest, herrors⟩ := hp s
  rw [bind_apply_of_eq_some hvalue, hrest, herrors]
  obtain ⟨hvalue', hrest', herrors'⟩ := hf s
  exact ⟨hvalue', hrest', by rw [herrors']⟩

theorem orSkip (hp : Settles p c value d errors) :
    Settles (orSkip p) c (some value) d errors := by
  intro s
  obtain ⟨hvalue, hrest, herrors⟩ := hp s
  exact ⟨congrArg some hvalue, hrest, herrors⟩

theorem tokens_rest (hp : Settles p c value d errors) (ending : Position) :
    (p ⟨c, ending⟩).rest.tokens = d := by
  have hrest := (hp ⟨[], ending⟩).2.1
  simpa [TokenStream.prepend] using congrArg TokenStream.tokens hrest

theorem suffix (hp : Settles p c value d errors) (hadvances : Advances p) : d <:+ c := by
  rw [← hp.tokens_rest ⟨0, 0⟩]
  exact (hadvances _).2

theorem suffix_tail (hp : Settles p c value d errors) (hconsumes : Consumes p) :
    d <:+ c.tail := by
  rw [← hp.tokens_rest ⟨0, 0⟩]
  exact (hconsumes _).2

/-- What comes behind a settled success may run into the limit. -/
theorem hitsLimit_bind
    (hp : Settles p c (some a) d errors)
    (hf : ∀ s : TokenStream, (f a (s.prepend d)).HitsLimit) (s : TokenStream) :
    ((p >>= f) (s.prepend c)).HitsLimit := by
  obtain ⟨hvalue, hrest, -⟩ := hp s
  rw [bind_apply_of_eq_some hvalue, hrest]
  exact SyntaxError.hitsLimit_append.mpr (Or.inr (hf s))

end Settles

end Parser
end LetLang
