import LetLang.Proofs.Parser.Progress

/-!
# Clean readings and refusals

Two outcomes of a parser matter for well-formed input.  A parser reads a piece
of syntax cleanly if it succeeds and finds no error, and it refuses a stream if
the first error it finds is about the nesting.  Both are stated together: a
parser reads something exactly if a condition holds and refuses otherwise.
-/

namespace LetLang
namespace TokenStream

/-- The stream with some tokens in front of it. -/
def prepend (ts : List Token) (s : TokenStream) : TokenStream :=
  { s with tokens := ts ++ s.tokens }

@[simp] theorem prepend_nil (s : TokenStream) : s.prepend [] = s := rfl

@[simp] theorem prepend_prepend (ts us : List Token) (s : TokenStream) :
    (s.prepend us).prepend ts = s.prepend (ts ++ us) := by
  simp [prepend]

@[simp] theorem head_prepend_cons (t : Token) (ts : List Token) (s : TokenStream) :
    (s.prepend (t :: ts)).head = t := rfl

@[simp] theorem tail_prepend_cons (t : Token) (ts : List Token) (s : TokenStream) :
    (s.prepend (t :: ts)).tail = s.prepend ts := rfl

theorem prepend_head_tail {s : TokenStream} (hs : s.head.kind ≠ .eof) :
    s.tail.prepend [s.head] = s := by
  obtain ⟨tokens, ending⟩ := s
  cases tokens with
  | nil => exact absurd rfl hs
  | cons t ts => rfl

end TokenStream

namespace Parser

variable {α β : Type}

/-! ## Clean readings -/

/-- `p` reads `a` off the front of `s` without an error and leaves `s'`. -/
def Reads (p : Parser α) (s : TokenStream) (a : α) (s' : TokenStream) : Prop :=
  (p s).value = some a ∧ (p s).rest = s' ∧ (p s).errors = []

theorem reads_congr
    {p q : Parser α} {s : TokenStream} (hpq : p s = q s) {a : α} {s' : TokenStream} :
    Reads p s a s' ↔ Reads q s a s' := by
  rw [Reads, Reads, hpq]

@[simp] theorem reads_pure_iff {a b : α} {s s' : TokenStream} :
    Reads (pure a) s b s' ↔ b = a ∧ s' = s := by
  simp [Reads, eq_comm]

@[simp] theorem reads_bind_iff
    {p : Parser α} {f : α → Parser β} {s s'' : TokenStream} {b : β} :
    Reads (p >>= f) s b s'' ↔ ∃ a s', Reads p s a s' ∧ Reads (f a) s' b s'' := by
  cases h : (p s).value with
  | none => simp [Reads, bind_apply_of_eq_none h, h]
  | some a =>
      simp only [Reads, bind_apply_of_eq_some h, h, List.append_eq_nil_iff,
        Option.some.injEq]
      constructor
      · rintro ⟨hvalue, hrest, hp, hf⟩
        exact ⟨a, (p s).rest, ⟨rfl, rfl, hp⟩, hvalue, hrest, hf⟩
      · rintro ⟨_, _, ⟨rfl, rfl, hp⟩, hvalue, hrest, hf⟩
        exact ⟨hvalue, hrest, hp, hf⟩

@[simp] theorem reads_peek_iff {s s' : TokenStream} {kind : TokenKind} :
    Reads peek s kind s' ↔ kind = s.head.kind ∧ s' = s := by
  simp [Reads, peek, eq_comm]

@[simp] theorem reads_next_iff {s s' : TokenStream} {t : Token} :
    Reads next s t s' ↔ t = s.head ∧ s' = s.tail := by
  simp [Reads, next, eq_comm]

@[simp] theorem not_reads_fail
    {cause : SyntaxError.Cause} {position : Position} {s s' : TokenStream} {a : α} :
    ¬Reads (fail cause position) s a s' := by
  simp [Reads, fail]

@[simp] theorem not_reads_report
    {cause : SyntaxError.Cause} {position : Position} {s s' : TokenStream} {u : Unit} :
    ¬Reads (report cause position) s u s' := by
  simp [Reads, report]

@[simp] theorem not_reads_refuse {s s' : TokenStream} {a : α} : ¬Reads refuse s a s' := by
  simp [Reads, refuse]

@[simp] theorem reads_require_iff {kind : TokenKind} {s s' : TokenStream} {u : Unit} :
    Reads (require kind) s u s' ↔ s.head.kind = kind ∧ s' = s := by
  unfold Reads require
  split <;> simp_all [eq_comm]

@[simp] theorem reads_expect_iff {kind : TokenKind} {s s' : TokenStream} {t : Token} :
    Reads (expect kind) s t s' ↔ s.head.kind = kind ∧ t = s.head ∧ s' = s.tail := by
  simp [expect, and_assoc]

theorem Reads.of_next
    {s s' : TokenStream} {t : Token} (h : Reads next s t s') (ht : t.kind ≠ .eof) :
    s = s'.prepend [t] := by
  obtain ⟨rfl, rfl⟩ := reads_next_iff.mp h
  exact (TokenStream.prepend_head_tail ht).symm

theorem Reads.of_expect
    {kind : TokenKind} {s s' : TokenStream} {t : Token}
    (h : Reads (expect kind) s t s') (hkind : kind ≠ .eof) :
    t.kind = kind ∧ s = s'.prepend [t] := by
  obtain ⟨hs, rfl, rfl⟩ := reads_expect_iff.mp h
  exact ⟨hs, (TokenStream.prepend_head_tail (hs ▸ hkind)).symm⟩

@[simp] theorem reads_skipIf_iff {kind : TokenKind} {s s' : TokenStream} {u : Unit} :
    Reads (skipIf kind) s u s' ↔ s' = if s.head.kind = kind then s.tail else s := by
  simp [Reads, skipIf, eq_comm]

@[simp] theorem reads_visit_iff {weakest : Precedence} {s s' : TokenStream} {u : Unit} :
    Reads (visit weakest) s u s' ↔ s' = s := by
  simp [Reads, visit, eq_comm]

/-! ## No failure is silent -/

/-- A failure of `p` comes with an error. -/
def ReportsFailure (p : Parser α) : Prop :=
  ∀ s, (p s).errors = [] → ∃ a, (p s).value = some a

theorem compositional_reportsFailure : Compositional ReportsFailure where
  pure a _ _ := ⟨a, rfl⟩
  peek s _ := ⟨s.head.kind, rfl⟩
  next s _ := ⟨s.head, rfl⟩
  fail _ _ _ _ h := absurd h (List.cons_ne_nil _ _)
  report _ _ _ _ _ := ⟨(), rfl⟩
  require kind s h := by
    unfold require at h ⊢
    split
    · exact ⟨(), rfl⟩
    · next hkind =>
      rw [if_neg hkind] at h
      exact absurd h (List.cons_ne_nil _ _)
  skipIf _ _ _ := ⟨(), rfl⟩
  visit _ _ _ := ⟨(), rfl⟩
  refuse _ h := absurd h (List.cons_ne_nil _ _)
  bind {α β p f} hp hf s h := by
    cases hvalue : (p s).value with
    | none =>
        rw [bind_apply_of_eq_none hvalue] at h
        obtain ⟨a, ha⟩ := hp s h
        exact absurd (ha.symm.trans hvalue) (by simp)
    | some a =>
        rw [bind_apply_of_eq_some hvalue] at h ⊢
        exact hf a _ (List.append_eq_nil_iff.mp h).2
  orSkip {α p} _ s _ := ⟨(p s).value, rfl⟩

theorem inherited_reportsFailure : Inherited ReportsFailure :=
  compositional_reportsFailure.inherited fun hp s h => hp _ s h

theorem ReportsFailure.exists_reads
    {p : Parser α} (hp : ReportsFailure p) {s : TokenStream} (h : (p s).errors = []) :
    ∃ a, Reads p s a (p s).rest := by
  obtain ⟨a, ha⟩ := hp s h
  exact ⟨a, ha, rfl, h⟩

theorem reads_orSkip_iff
    {p : Parser α} (hp : ReportsFailure p) {s s' : TokenStream} {o : Option α} :
    Reads (orSkip p) s o s' ↔ ∃ a, o = some a ∧ Reads p s a s' := by
  constructor
  · rintro ⟨hvalue, hrest, herrors⟩
    obtain ⟨a, ha, -, -⟩ := hp.exists_reads herrors
    exact ⟨a, (Option.some.inj hvalue).symm.trans ha, ha, hrest, herrors⟩
  · rintro ⟨a, rfl, hvalue, hrest, herrors⟩
    exact ⟨congrArg some hvalue, hrest, herrors⟩

/-! ## Refusals -/

/-- The first error of `p` on `s` is about the nesting. -/
def Refuses (p : Parser α) (s : TokenStream) : Prop :=
  ∃ e errors, (p s).errors = e :: errors ∧ e.cause = .nestedTooDeeply

theorem refuses_congr {p q : Parser α} {s : TokenStream} (hpq : p s = q s) :
    Refuses p s ↔ Refuses q s := by
  rw [Refuses, Refuses, hpq]

theorem refuses_refuse (s : TokenStream) : Refuses (refuse : Parser α) s :=
  ⟨_, _, rfl, rfl⟩

theorem Refuses.bind
    {p : Parser α} {s : TokenStream} (h : Refuses p s) (f : α → Parser β) :
    Refuses (p >>= f) s := by
  obtain ⟨e, errors, herrors, hcause⟩ := h
  cases hvalue : (p s).value with
  | none => exact ⟨e, errors, by rw [bind_apply_of_eq_none hvalue, herrors], hcause⟩
  | some a =>
      exact ⟨e, _, by rw [bind_apply_of_eq_some hvalue, herrors, List.cons_append], hcause⟩

theorem Reads.bind_refuses
    {p : Parser α} {f : α → Parser β} {s s' : TokenStream} {a : α}
    (hp : Reads p s a s') (hf : Refuses (f a) s') : Refuses (p >>= f) s := by
  obtain ⟨hvalue, rfl, hp⟩ := hp
  obtain ⟨e, errors, herrors, hcause⟩ := hf
  exact ⟨e, errors, by rw [bind_apply_of_eq_some hvalue, hp, herrors, List.nil_append], hcause⟩

/-- `p` reads `a` off `s` and leaves `s'` if `fits`, and refuses `s` if not. -/
structure ReadsIf (fits : Prop) (p : Parser α) (s : TokenStream) (a : α)
    (s' : TokenStream) : Prop where
  reads : fits → Reads p s a s'
  refuses : ¬fits → Refuses p s

namespace ReadsIf

variable {fits fits' : Prop} {p q : Parser α} {f : α → Parser β} {s s' s'' : TokenStream}
  {a : α} {b : β}

theorem of_reads (h : Reads p s a s') : ReadsIf True p s a s' :=
  ⟨fun _ => h, fun hfalse => absurd trivial hfalse⟩

theorem congr (h : ReadsIf fits p s a s') (hfits : fits' ↔ fits) :
    ReadsIf fits' p s a s' :=
  ⟨fun hf => h.reads (hfits.mp hf), fun hf => h.refuses (fun hf' => hf (hfits.mpr hf'))⟩

theorem congr_apply (h : ReadsIf fits q s a s') (hpq : p s = q s) :
    ReadsIf fits p s a s' :=
  ⟨fun hf => (reads_congr hpq).mpr (h.reads hf),
    fun hf => (refuses_congr hpq).mpr (h.refuses hf)⟩

theorem bind (hp : ReadsIf fits p s a s') (hf : ReadsIf fits' (f a) s' b s'') :
    ReadsIf (fits ∧ fits') (p >>= f) s b s'' := by
  constructor
  · rintro ⟨h, h'⟩
    exact reads_bind_iff.mpr ⟨a, s', hp.reads h, hf.reads h'⟩
  · intro h
    by_cases hfits : fits
    · exact (hp.reads hfits).bind_refuses (hf.refuses fun h' => h ⟨hfits, h'⟩)
    · exact (hp.refuses hfits).bind f

theorem bind_of_reads (hp : Reads p s a s') (hf : ReadsIf fits (f a) s' b s'') :
    ReadsIf fits (p >>= f) s b s'' :=
  ((of_reads hp).bind hf).congr (iff_of_eq (true_and _)).symm

theorem bind_reads (hp : ReadsIf fits p s a s') (hf : Reads (f a) s' b s'') :
    ReadsIf fits (p >>= f) s b s'' :=
  (hp.bind (of_reads hf)).congr (iff_of_eq (and_true _)).symm

theorem orSkip (h : ReadsIf fits p s a s') : ReadsIf fits (orSkip p) s (some a) s' := by
  constructor
  · intro hfits
    obtain ⟨hvalue, hrest, herrors⟩ := h.reads hfits
    exact ⟨congrArg some hvalue, hrest, herrors⟩
  · intro hfits
    exact h.refuses hfits

end ReadsIf

end Parser
end LetLang
