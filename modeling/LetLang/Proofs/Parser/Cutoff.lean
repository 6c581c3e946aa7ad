import LetLang.Proofs.Parser.Lookahead
import Mathlib.Data.List.TakeWhile

/-!
# The nesting limit cuts the input

Some tokens are known to be next, none of them the end of the input.  Then one of
three things happens, and the known tokens decide which: the parser is done
before it looks further, it runs into the nesting limit on a known token, or it
gets past the known tokens.  In the second case whatever follows is dropped, and
the frames that are still open unwind over an empty input: they may complete
blocks and statements, but neither those nor the errors that are reported depend
on what was dropped.

Every parser behaves in this way.  The induction over the parsers has been
carried out before, so all there is to show is that the single steps do and that
composition and loops keep it.
-/

namespace LetLang

/-- There is no end-of-input token among the tokens. -/
def EofFree (ts : List Token) : Prop :=
  ∀ t ∈ ts, t.kind ≠ .eof

theorem EofFree.of_suffix {c d : List Token} (hc : EofFree c) (h : d <:+ c) : EofFree d :=
  fun t ht => hc t (h.subset ht)

theorem EofFree.append {c d : List Token} (hc : EofFree c) (hd : EofFree d) :
    EofFree (c ++ d) := by
  intro t ht
  rcases List.mem_append.mp ht with h | h
  · exact hc t h
  · exact hd t h

namespace TokenStream

/-- The token is in the stream or is the marker behind it. -/
def Offers (s : TokenStream) (t : Token) : Prop :=
  t ∈ s.tokens ∨ t = Token.eof s.ending

theorem offers_head (s : TokenStream) : s.Offers s.head := by
  obtain ⟨tokens, ending⟩ := s
  cases tokens with
  | nil => exact Or.inr rfl
  | cons t ts => exact Or.inl List.mem_cons_self

theorem Offers.of_suffix
    {s s' : TokenStream} {t : Token} (h : s'.Offers t)
    (hs : s'.ending = s.ending ∧ s'.tokens <:+ s.tokens) : s.Offers t := by
  rcases h with ht | ht
  · exact Or.inl (hs.2.subset ht)
  · exact Or.inr (by rw [ht, hs.1])

theorem afterEof_of_eofFree {s : TokenStream} (hs : EofFree s.tokens) :
    s.afterEof = ⟨[], s.ending⟩ := by
  have hdrop : s.tokens.dropWhile (·.kind ≠ .eof) = [] := by
    rw [List.dropWhile_eq_nil_iff]
    intro t ht
    exact decide_eq_true (hs t ht)
  rw [afterEof, hdrop, List.tail_nil]

end TokenStream

namespace Parser

variable {α β : Type}

/-! ## Where the errors come from -/

/-- An error is about a single token, or about the nesting, and then it stands at
a token of the stream. -/
def Located (s : TokenStream) (e : SyntaxError) : Prop :=
  e.cause.isLocal = true ∨
    e.cause = .nestedTooDeeply ∧ ∃ t, s.Offers t ∧ e.position = some t.position

/-- What `p` leaves of a stream is an end piece of it, and its errors are located
in the stream. -/
structure Traced (p : Parser α) : Prop where
  advances : Advances p
  located : ∀ s, ∀ e ∈ (p s).errors, Located s e

theorem Traced.bind
    {p : Parser α} {f : α → Parser β} (hp : Traced p) (hf : ∀ a, Traced (f a)) :
    Traced (p >>= f) := by
  refine ⟨hp.advances.bind fun a => (hf a).advances, ?_⟩
  intro s e he
  cases hvalue : (p s).value with
  | none =>
      rw [bind_apply_of_eq_none hvalue] at he
      exact hp.located s e he
  | some a =>
      rw [bind_apply_of_eq_some hvalue] at he
      rcases List.mem_append.mp he with he | he
      · exact hp.located s e he
      · refine ((hf a).located _ e he).imp_right ?_
        rintro ⟨hcause, t, ht, hposition⟩
        exact ⟨hcause, t, ht.of_suffix (hp.advances s), hposition⟩

theorem Advances.traced_of_errors_eq_nil
    {p : Parser α} (hp : Advances p) (h : ∀ s, (p s).errors = []) : Traced p := by
  refine ⟨hp, fun s e he => ?_⟩
  rw [h s] at he
  exact absurd he List.not_mem_nil

theorem Advances.traced_of_isLocal
    {p : Parser α} (hp : Advances p)
    (h : ∀ s, ∀ e ∈ (p s).errors, e.cause.isLocal = true) : Traced p :=
  ⟨hp, fun s e he => Or.inl (h s e he)⟩

theorem compositional_traced : Compositional Traced where
  pure a := (compositional_advances.pure a).traced_of_errors_eq_nil fun _ => rfl
  peek := compositional_advances.peek.traced_of_errors_eq_nil fun _ => rfl
  next := compositional_advances.next.traced_of_errors_eq_nil fun _ => rfl
  fail cause position hcause := by
    refine (compositional_advances.fail cause position hcause).traced_of_isLocal ?_
    intro s e he
    rw [List.mem_singleton.mp he]
    exact hcause
  report cause position hcause := by
    refine (compositional_advances.report cause position hcause).traced_of_isLocal ?_
    intro s e he
    rw [List.mem_singleton.mp he]
    exact hcause
  require kind := by
    refine (compositional_advances.require kind).traced_of_isLocal ?_
    intro s e he
    unfold require at he
    split at he
    · exact absurd he List.not_mem_nil
    · rw [List.mem_singleton.mp he]
      rfl
  skipIf kind := (compositional_advances.skipIf kind).traced_of_errors_eq_nil fun _ => rfl
  visit weakest := (compositional_advances.visit weakest).traced_of_errors_eq_nil fun _ => rfl
  refuse := by
    refine ⟨compositional_advances.refuse, fun s e he => Or.inr ?_⟩
    rw [List.mem_singleton.mp he]
    exact ⟨rfl, s.head, s.offers_head, rfl⟩
  bind := Traced.bind
  orSkip hp := ⟨compositional_advances.orSkip hp.advances, hp.located⟩

theorem inherited_traced : Inherited Traced :=
  compositional_traced.inherited fun hp =>
    ⟨fun s => (hp _).advances s, fun s => (hp _).located s⟩

/-! ## The three outcomes on known tokens -/

/-- On the tokens `c` the limit is hit: what follows is dropped, and it influences
neither the value nor the errors that are reported. -/
structure CutsOff (p : Parser α) (c : List Token) (errors : List SyntaxError) : Prop where
  limit : SyntaxError.HitsLimit errors
  dropped : ∀ s : TokenStream, EofFree s.tokens →
    (p (s.prepend c)).value = (p ⟨c, s.ending⟩).value ∧
    (p (s.prepend c)).rest = ⟨[], s.ending⟩ ∧
    SyntaxError.reported (p (s.prepend c)).errors = errors

/-- The tokens `c` are all read, and if the limit is hit, then behind them. -/
structure Passes (p : Parser α) (c : List Token) : Prop where
  rest : ∀ s : TokenStream, (p (s.prepend c)).rest.ending = s.ending ∧
    (p (s.prepend c)).rest.tokens <:+ s.tokens
  limit : ∀ s : TokenStream, ∀ e ∈ (p (s.prepend c)).errors, e.cause = .nestedTooDeeply →
    ∃ t, s.Offers t ∧ e.position = some t.position

/-- The known tokens decide which of the three outcomes it is. -/
inductive Decided (p : Parser α) (c : List Token) : Prop where
  | settles {value : Option α} {d : List Token} {errors : List SyntaxError} :
      Settles p c value d errors → ¬SyntaxError.HitsLimit errors → Decided p c
  | cutsOff {errors : List SyntaxError} : CutsOff p c errors → Decided p c
  | passes : Passes p c → Decided p c

theorem Traced.exists_offers
    {p : Parser α} (hp : Traced p) {s : TokenStream} {e : SyntaxError}
    (he : e ∈ (p s).errors) (hcause : e.cause = .nestedTooDeeply) :
    ∃ t, s.Offers t ∧ e.position = some t.position := by
  rcases hp.located s e he with hlocal | ⟨-, ht⟩
  · rw [hcause] at hlocal
    contradiction
  · exact ht

theorem Traced.passes_nil {p : Parser α} (hp : Traced p) : Passes p [] :=
  ⟨hp.advances, fun _ _ he hcause => hp.exists_offers he hcause⟩

section Bind

variable {p : Parser α} {f : α → Parser β} {c d : List Token} {a : α}
  {errors errors' : List SyntaxError}

/-- Behind the cut only the empty input is left, and nothing more is reported. -/
theorem CutsOff.bind (hp : CutsOff p c errors) (hf : ∀ a, Traced (f a)) :
    CutsOff (p >>= f) c errors := by
  refine ⟨hp.limit, fun s hs => ?_⟩
  obtain ⟨hvalue, hrest, hreported⟩ := hp.dropped s hs
  have hlimit : (p (s.prepend c)).HitsLimit := by
    obtain ⟨e, he, hcause⟩ := hp.limit
    rw [← hreported] at he
    exact ⟨e, (SyntaxError.reported_prefix _).subset he, hcause⟩
  have halone : (p ⟨c, s.ending⟩).rest = ⟨[], s.ending⟩ := by
    have hnil := (hp.dropped ⟨[], s.ending⟩ (by simp [EofFree])).2.1
    simpa [TokenStream.prepend] using hnil
  cases hfirst : (p ⟨c, s.ending⟩).value with
  | none =>
      rw [hfirst] at hvalue
      rw [bind_apply_of_eq_none hvalue, bind_apply_of_eq_none hfirst]
      exact ⟨rfl, hrest, hreported⟩
  | some a =>
      rw [hfirst] at hvalue
      rw [bind_apply_of_eq_some hvalue, bind_apply_of_eq_some hfirst, hrest, halone,
        SyntaxError.reported_append_of_hitsLimit hlimit]
      refine ⟨rfl, ?_, hreported⟩
      obtain ⟨hending, hsuffix⟩ := (hf a).advances ⟨[], s.ending⟩
      exact congr (congrArg TokenStream.mk (List.suffix_nil.mp hsuffix)) hending

theorem Passes.bind (hp : Passes p c) (hf : ∀ a, Traced (f a)) : Passes (p >>= f) c := by
  constructor
  · intro s
    obtain hrest | ⟨a, hrest⟩ := rest_bind p f (s.prepend c)
    · rw [hrest]
      exact hp.rest s
    · rw [hrest]
      obtain ⟨hending, hsuffix⟩ := (hf a).advances (p (s.prepend c)).rest
      exact ⟨hending.trans (hp.rest s).1, hsuffix.trans (hp.rest s).2⟩
  · intro s e he hcause
    cases hvalue : (p (s.prepend c)).value with
    | none =>
        rw [bind_apply_of_eq_none hvalue] at he
        exact hp.limit s e he hcause
    | some a =>
        rw [bind_apply_of_eq_some hvalue] at he
        rcases List.mem_append.mp he with he | he
        · exact hp.limit s e he hcause
        · obtain ⟨t, ht, hposition⟩ := (hf a).exists_offers he hcause
          exact ⟨t, ht.of_suffix (hp.rest s), hposition⟩

theorem Settles.bind_cutsOff
    (hp : Settles p c (some a) d errors) (herrors : ¬SyntaxError.HitsLimit errors)
    (hf : CutsOff (f a) d errors') : CutsOff (p >>= f) c (errors ++ errors') := by
  constructor
  · exact SyntaxError.hitsLimit_append.mpr (Or.inr hf.limit)
  · intro s hs
    obtain ⟨hvalue, hrest, hreported⟩ := hf.dropped s hs
    obtain ⟨hp₁, hp₂, hp₃⟩ := hp s
    obtain ⟨hnil₁, hnil₂, -⟩ := hp ⟨[], s.ending⟩
    simp only [TokenStream.prepend, List.append_nil] at hnil₁ hnil₂
    rw [bind_apply_of_eq_some hp₁, bind_apply_of_eq_some hnil₁, hp₂, hp₃, hnil₂,
      SyntaxError.reported_append_of_not_hitsLimit herrors, hreported]
    exact ⟨hvalue, hrest, rfl⟩

theorem Settles.bind_passes
    (hp : Settles p c (some a) d errors) (herrors : ¬SyntaxError.HitsLimit errors)
    (hf : Passes (f a) d) : Passes (p >>= f) c := by
  constructor
  · intro s
    obtain ⟨hvalue, hrest, -⟩ := hp s
    rw [bind_apply_of_eq_some hvalue, hrest]
    exact hf.rest s
  · intro s e he hcause
    obtain ⟨hvalue, hrest, hfirst⟩ := hp s
    rw [bind_apply_of_eq_some hvalue, hrest, hfirst] at he
    rcases List.mem_append.mp he with he | he
    · exact absurd ⟨e, he, hcause⟩ herrors
    · exact hf.limit s e he hcause

theorem Settles.bind_decided
    (hp : Settles p c (some a) d errors) (herrors : ¬SyntaxError.HitsLimit errors)
    (hf : Decided (f a) d) : Decided (p >>= f) c := by
  cases hf with
  | settles hf herrors' =>
      refine .settles (hp.bind hf) ?_
      rw [SyntaxError.hitsLimit_append]
      exact not_or.mpr ⟨herrors, herrors'⟩
  | cutsOff hf => exact .cutsOff (hp.bind_cutsOff herrors hf)
  | passes hf => exact .passes (hp.bind_passes herrors hf)

namespace Decided

/-- What comes behind the first of two parsers matters only where the first one
settles. -/
theorem bind
    (hp : Decided p c) (htraced : ∀ a, Traced (f a))
    (hf : ∀ a d errors, Settles p c (some a) d errors → Decided (f a) d) :
    Decided (p >>= f) c := by
  cases hp with
  | @settles value d errors hp herrors =>
      cases value with
      | none => exact .settles (hp.bind_none f) herrors
      | some a => exact hp.bind_decided herrors (hf a d errors hp)
  | cutsOff hp => exact .cutsOff (hp.bind htraced)
  | passes hp => exact .passes (hp.bind htraced)

theorem congr
    {q : Parser α} (hq : Decided q c)
    (h : ∀ s : TokenStream, p (s.prepend c) = q (s.prepend c)) : Decided p c := by
  cases hq with
  | settles hq herrors => exact .settles (hq.congr h) herrors
  | cutsOff hq =>
      refine .cutsOff ⟨hq.limit, fun s hs => ?_⟩
      have hnil := h ⟨[], s.ending⟩
      simp only [TokenStream.prepend, List.append_nil] at hnil
      rw [h s, hnil]
      exact hq.dropped s hs
  | passes hq =>
      refine .passes ⟨fun s => ?_, fun s => ?_⟩
      · rw [h s]
        exact hq.rest s
      · rw [h s]
        exact hq.limit s

theorem orSkip (hp : Decided p c) : Decided (orSkip p) c := by
  cases hp with
  | settles hp herrors => exact .settles hp.orSkip herrors
  | cutsOff hp =>
      refine .cutsOff ⟨hp.limit, fun s hs => ?_⟩
      obtain ⟨hvalue, hrest, hreported⟩ := hp.dropped s hs
      exact ⟨congrArg some hvalue, hrest, hreported⟩
  | passes hp => exact .passes ⟨hp.rest, hp.limit⟩

end Decided

end Bind

/-! ## Every parser is decided by known tokens -/

/-- Known tokens, none of them the end of the input, decide the outcome of `p`. -/
structure Foreseen (p : Parser α) : Prop extends Traced p where
  decided : ∀ c, EofFree c → Decided p c

theorem Foreseen.bind
    {p : Parser α} {f : α → Parser β} (hp : Foreseen p) (hf : ∀ a, Foreseen (f a)) :
    Foreseen (p >>= f) := by
  refine ⟨hp.toTraced.bind fun a => (hf a).toTraced, fun c hc => ?_⟩
  refine (hp.decided c hc).bind (fun a => (hf a).toTraced) fun a d errors hsettles => ?_
  exact (hf a).decided d (hc.of_suffix (hsettles.suffix hp.advances))

theorem cutsOff_refuse {t : Token} {c : List Token} (hc : EofFree (t :: c)) :
    CutsOff (refuse : Parser α) (t :: c) [⟨.nestedTooDeeply, some t.position⟩] := by
  refine ⟨⟨_, List.mem_singleton_self _, rfl⟩, fun s hs => ⟨rfl, ?_, rfl⟩⟩
  exact TokenStream.afterEof_of_eofFree (s := s.prepend (t :: c)) (hc.append hs)

/-- Without known tokens there is nothing to show, so a single step has to settle
on one known token. -/
theorem Traced.foreseen
    {p : Parser α} (hp : Traced p)
    (h : ∀ t c, ∃ value d errors,
      Settles p (t :: c) value d errors ∧ ¬SyntaxError.HitsLimit errors) : Foreseen p := by
  refine ⟨hp, fun c _ => ?_⟩
  cases c with
  | nil => exact .passes hp.passes_nil
  | cons t c =>
      obtain ⟨value, d, errors, hsettles, herrors⟩ := h t c
      exact .settles hsettles herrors

theorem compositional_foreseen : Compositional Foreseen where
  pure a := (compositional_traced.pure a).foreseen fun t c =>
    ⟨_, _, _, settles_pure a (t :: c), SyntaxError.not_hitsLimit_nil⟩
  peek := compositional_traced.peek.foreseen fun t c =>
    ⟨_, _, _, settles_peek t c, SyntaxError.not_hitsLimit_nil⟩
  next := compositional_traced.next.foreseen fun t c =>
    ⟨_, _, _, settles_next t c, SyntaxError.not_hitsLimit_nil⟩
  fail cause position hcause :=
    (compositional_traced.fail cause position hcause).foreseen fun t c =>
      ⟨_, _, _, settles_fail cause position (t :: c),
        SyntaxError.not_hitsLimit_of_isLocal hcause _⟩
  report cause position hcause :=
    (compositional_traced.report cause position hcause).foreseen fun t c =>
      ⟨_, _, _, settles_report cause position (t :: c),
        SyntaxError.not_hitsLimit_of_isLocal hcause _⟩
  require kind := (compositional_traced.require kind).foreseen fun t c => by
    by_cases ht : t.kind = kind
    · exact ⟨_, _, _, settles_require_of_eq ht c, SyntaxError.not_hitsLimit_nil⟩
    · exact ⟨_, _, _, settles_require_of_ne ht c, SyntaxError.not_hitsLimit_of_isLocal rfl _⟩
  skipIf kind := (compositional_traced.skipIf kind).foreseen fun t c =>
    ⟨_, _, _, settles_skipIf kind t c, SyntaxError.not_hitsLimit_nil⟩
  visit weakest := (compositional_traced.visit weakest).foreseen fun t c =>
    ⟨_, _, _, settles_visit weakest (t :: c), SyntaxError.not_hitsLimit_nil⟩
  refuse := by
    refine ⟨compositional_traced.refuse, fun c hc => ?_⟩
    cases c with
    | nil => exact .passes compositional_traced.refuse.passes_nil
    | cons t c => exact .cutsOff (cutsOff_refuse hc)
  bind := Foreseen.bind
  orSkip hp :=
    ⟨compositional_traced.orSkip hp.toTraced, fun c hc => (hp.decided c hc).orSkip⟩

/-- The induction is on the number of known tokens, of which every operator takes
one. -/
theorem foreseen_operators
    (room : Nat) (weakest : Precedence) (left : Expr)
    (hexpression : ∀ weakest, Foreseen (expression room weakest)) :
    Foreseen (operators (expression room) weakest left) := by
  have htraced (left : Expr) : Traced (operators (expression room) weakest left) :=
    inherited_traced.operators room weakest left fun weakest => (hexpression weakest).toTraced
  refine ⟨htraced left, fun c hc => ?_⟩
  induction hlength : c.length using Nat.strongRecOn generalizing c left with
  | ind n ih =>
      cases c with
      | nil => exact .passes (htraced left).passes_nil
      | cons t c =>
          obtain hends | ⟨op, hop, hlt⟩ := endsOperators_or_exists_op weakest t.kind
          · have hpure := (compositional_foreseen.pure left).decided (t :: c) hc
            exact hpure.congr fun s => operators_apply_of_ends hends
          · refine Decided.congr ?_ fun s =>
              operators_apply_of_op (advances_expression room) hop hlt
            have hoperand := hexpression op.precedence
            have hc' : EofFree c := hc.of_suffix (List.suffix_cons t c)
            refine (settles_next t c).bind_decided SyntaxError.not_hitsLimit_nil ?_
            refine (hoperand.decided c hc').bind (fun right => htraced _) ?_
            intro right d errors hright
            have hsuffix : d <:+ c := hright.suffix hoperand.advances
            have hshorter : d.length < n := by
              have hle := hsuffix.length_le
              rw [← hlength, List.length_cons]
              omega
            exact ih d.length hshorter _ d (hc'.of_suffix hsuffix) rfl

/-- The induction is on the number of known tokens, of which every statement takes
at least one. -/
theorem foreseen_sequence
    (room : Nat) (stops : TokenKind → Bool) (heof : stops .eof = true)
    (hstatement : Foreseen (statement (expression room) (block room))) :
    Foreseen (sequence (statement (expression room) (block room)) stops) := by
  have hconsumes := consumes_statement room
  have hfirst := compositional_foreseen.orSkip hstatement
  have htraced := inherited_traced.sequence room stops heof hstatement.toTraced
  refine ⟨htraced, fun c hc => ?_⟩
  induction hlength : c.length using Nat.strongRecOn generalizing c with
  | ind n ih =>
      cases c with
      | nil => exact .passes htraced.passes_nil
      | cons t c =>
          cases ht : stops t.kind with
          | true =>
              have hpure :=
                (compositional_foreseen.pure ([] : List Stmt)).decided (t :: c) hc
              exact hpure.congr fun s => sequence_apply_of_stops ht
          | false =>
              refine Decided.congr ?_ fun s => sequence_apply_of_not_stops hconsumes heof ht
              have hpure (first : Option Stmt) (others : List Stmt) :
                  Foreseen (pure (first.toList ++ others) : Parser (List Stmt)) :=
                compositional_foreseen.pure _
              refine (hfirst.decided _ hc).bind
                (fun first => htraced.bind fun others => (hpure first others).toTraced) ?_
              intro first d errors hsettles
              have hsuffix : d <:+ c := hsettles.suffix_tail hconsumes
              have hshorter : d.length < n := by
                have hle := hsuffix.length_le
                rw [← hlength, List.length_cons]
                omega
              have hd : EofFree d := hc.of_suffix (hsuffix.trans (List.suffix_cons t c))
              refine (ih d.length hshorter d hd rfl).bind
                (fun others => (hpure first others).toTraced) ?_
              intro others d' errors' hothers
              exact (hpure first others).decided d'
                (hd.of_suffix (hothers.suffix htraced.advances))

theorem inherited_foreseen : Inherited Foreseen where
  toCompositional := compositional_foreseen
  operators := foreseen_operators
  sequence := foreseen_sequence

end Parser
end LetLang
