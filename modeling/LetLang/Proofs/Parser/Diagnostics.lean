import LetLang.Proofs.Parser.Cutoff
import LetLang.Proofs.Parser.Positions
import Mathlib.Order.Basic

/-!
# Where the errors stand

Every syntax error of a source text points at one of its tokens or at its end,
and the errors come in the order of the text.

The tokens of a text stand in ascending order.  On such a stream the errors of a
parser lie between the token at which it starts and the one at which it stops,
and this is what a sequence of parsers keeps: the second one starts where the
first one stops.  There is one exception.  A parser that has just taken a token
may still report it, although the stream starts behind it by then, so the
statement says of every parser from which position on its errors are.
-/

namespace LetLang

/-! ## The order of positions -/

namespace Position

/-- Positions are ordered by their lines, and on one line by their columns. -/
instance : Preorder Position where
  le p q := p.line < q.line ∨ p.line = q.line ∧ p.column ≤ q.column
  le_refl p := Or.inr ⟨rfl, Nat.le_refl _⟩
  le_trans p q r hpq hqr := by
    rcases hpq with h | ⟨h, h'⟩ <;> rcases hqr with k | ⟨k, k'⟩
    · exact Or.inl (Nat.lt_trans h k)
    · exact Or.inl (k ▸ h)
    · exact Or.inl (h ▸ k)
    · exact Or.inr ⟨h.trans k, Nat.le_trans h' k'⟩

theorem le_after (p : Position) (c : Char) : p ≤ p.after c := by
  unfold after
  split
  · exact Or.inl (Nat.lt_succ_self _)
  · exact Or.inr ⟨rfl, Nat.le_succ _⟩

/-- The positions ascend from `low` through `places` to `high`. -/
def Ascend (low : Position) (places : List Position) (high : Position) : Prop :=
  (low :: (places ++ [high])).Pairwise (· ≤ ·)

namespace Ascend

variable {low mid high : Position} {places others : List Position}

theorem nil (h : low ≤ high) : Ascend low [] high := by
  simpa [Ascend] using h

theorem cons {p : Position} (h : low ≤ p) (hp : Ascend p places high) :
    Ascend low (p :: places) high := by
  refine List.pairwise_cons.mpr ⟨fun q hq => ?_, hp⟩
  rcases List.mem_cons.mp hq with rfl | hq
  · exact h
  · exact h.trans (List.rel_of_pairwise_cons hp hq)

theorem of_le {p : Position} (h : p ≤ low) (hlow : Ascend low places high) :
    Ascend p places high :=
  List.pairwise_cons.mpr
    ⟨fun _ hq => h.trans (List.rel_of_pairwise_cons hlow hq), hlow.of_cons⟩

theorem append (h : Ascend low places mid) (h' : Ascend mid others high) :
    Ascend low (places ++ others) high := by
  induction places generalizing low with
  | nil => exact h'.of_le (List.rel_of_pairwise_cons h List.mem_cons_self)
  | cons p places ih =>
      exact cons (List.rel_of_pairwise_cons h List.mem_cons_self) (ih h.of_cons)

theorem pairwise (h : Ascend low places high) : places.Pairwise (· ≤ ·) :=
  (List.pairwise_append.mp h.of_cons).1

end Ascend

end Position

open Position (Ascend)

/-! ## Streams in ascending order -/

namespace TokenStream

/-- The tokens and the end of the input stand in ascending order. -/
def Ascending (s : TokenStream) : Prop :=
  (s.tokens.map Token.position ++ [s.ending]).Pairwise (· ≤ ·)

theorem position_head_mem (s : TokenStream) :
    s.head.position ∈ s.tokens.map Token.position ++ [s.ending] := by
  obtain ⟨tokens, ending⟩ := s
  cases tokens with
  | nil => exact List.mem_singleton_self _
  | cons t ts => exact List.mem_cons_self

/-- Going on in a stream in ascending order means going up. -/
theorem Ascending.of_suffix
    {s s' : TokenStream} (hs : s.Ascending)
    (h : s'.ending = s.ending ∧ s'.tokens <:+ s.tokens) :
    s'.Ascending ∧ s.head.position ≤ s'.head.position := by
  obtain ⟨tokens, ending⟩ := s
  obtain ⟨tokens', ending'⟩ := s'
  obtain ⟨rfl, before, rfl⟩ := h
  have hmem := position_head_mem ⟨tokens', ending'⟩
  simp only [Ascending, List.map_append, List.append_assoc] at hs
  obtain ⟨-, hs', hle⟩ := List.pairwise_append.mp hs
  refine ⟨hs', ?_⟩
  cases before with
  | nil => exact le_refl _
  | cons t before => exact hle _ List.mem_cons_self _ hmem

end TokenStream

/-- The tokens of a text that starts at `p` stand between `p` and its end. -/
theorem ascend_scan (busy : Nat) (p : Position) (text : List Char) :
    Ascend p ((scan busy p text).map Token.position) (p.afterAll text) := by
  induction text generalizing busy p with
  | nil => exact .nil (le_refl p)
  | cons c rest ih =>
      cases busy with
      | succ busy => exact (ih busy (p.after c)).of_le (p.le_after c)
      | zero =>
          rw [scan]
          split
          · exact (ih 0 (p.after c)).of_le (p.le_after c)
          · exact .cons (le_refl p) ((ih _ (p.after c)).of_le (p.le_after c))

theorem TokenStream.ascending_ofSource (source : String) :
    (TokenStream.ofSource source).Ascending :=
  (ascend_scan 0 .start source.toList).of_cons

/-! ## Errors in ascending order -/

/-- The errors stand at positions that ascend from `low` to `high`. -/
def SyntaxError.Ascend (low : Position) (errors : List SyntaxError) (high : Position) : Prop :=
  ∃ places, errors.map position = places.map some ∧ Position.Ascend low places high

namespace SyntaxError.Ascend

variable {low mid high : Position} {errors errors' : List SyntaxError}

theorem nil (h : low ≤ high) : Ascend low [] high :=
  ⟨[], rfl, .nil h⟩

theorem single (cause : Cause) {p : Position} (h : low ≤ p) (h' : p ≤ high) :
    Ascend low [⟨cause, some p⟩] high :=
  ⟨[p], rfl, .cons h (.nil h')⟩

theorem append (h : Ascend low errors mid) (h' : Ascend mid errors' high) :
    Ascend low (errors ++ errors') high := by
  obtain ⟨places, herrors, hplaces⟩ := h
  obtain ⟨places', herrors', hplaces'⟩ := h'
  exact ⟨places ++ places', by simp [herrors, herrors'], hplaces.append hplaces'⟩

theorem of_le {p : Position} (h : p ≤ low) (hlow : Ascend low errors high) :
    Ascend p errors high := by
  obtain ⟨places, herrors, hplaces⟩ := hlow
  exact ⟨places, herrors, hplaces.of_le h⟩

theorem exists_places (h : Ascend low errors high) (hbefore : errors' <+: errors) :
    ∃ places : List Position,
      errors'.map position = places.map some ∧ places.Pairwise (· ≤ ·) := by
  obtain ⟨places, herrors, hplaces⟩ := h
  refine ⟨places.take errors'.length, ?_, hplaces.pairwise.sublist (List.take_sublist _ _)⟩
  rw [List.map_take, ← herrors, ← List.map_take, ← List.prefix_iff_eq_take.mp hbefore]

end SyntaxError.Ascend

namespace Parser

variable {α β : Type} {low : Position}

/-- Started at `low` or behind it, `p` finds errors in ascending order, from `low`
on and up to the token at which it stops. -/
structure OrderlyFrom (low : Position) (p : Parser α) : Prop where
  advances : Advances p
  ascend : ∀ s, s.Ascending → low ≤ s.head.position →
    SyntaxError.Ascend low (p s).errors (p s).rest.head.position

/-- The errors of `p` are in ascending order, wherever it starts. -/
def Orderly (p : Parser α) : Prop :=
  ∀ low, OrderlyFrom low p

theorem OrderlyFrom.bind
    {p : Parser α} {f : α → Parser β} (hp : OrderlyFrom low p) (hf : ∀ a, Orderly (f a)) :
    OrderlyFrom low (p >>= f) := by
  refine ⟨hp.advances.bind fun a => (hf a low).advances, fun s hs hlow => ?_⟩
  have hfirst := hp.ascend s hs hlow
  have hrest := (hs.of_suffix (hp.advances s)).1
  cases hvalue : (p s).value with
  | none =>
      rw [bind_apply_of_eq_none hvalue]
      exact hfirst
  | some a =>
      rw [bind_apply_of_eq_some hvalue]
      exact hfirst.append ((hf a _).ascend _ hrest (le_refl _))

/-- The token that was taken may be reported. -/
theorem orderly_next_bind
    {f : Token → Parser α} (hf : ∀ t, OrderlyFrom t.position (f t)) :
    Orderly (next >>= f) := by
  intro low
  refine ⟨compositional_advances.next.bind fun t => (hf t).advances, fun s hs hlow => ?_⟩
  obtain ⟨htail, hle⟩ := hs.of_suffix (compositional_advances.next s)
  rw [bind_apply_of_eq_some (a := s.head) rfl]
  exact ((hf s.head).ascend s.tail htail hle).of_le hlow

theorem orderly_of_errors_eq_nil
    {p : Parser α} (hp : Advances p) (h : ∀ s, (p s).errors = []) : Orderly p := by
  intro low
  refine ⟨hp, fun s hs hlow => ?_⟩
  rw [h s]
  exact .nil (hlow.trans (hs.of_suffix (hp s)).2)

theorem orderly_require (kind : TokenKind) : Orderly (require kind) := by
  intro low
  refine ⟨compositional_advances.require kind, fun s _ hlow => ?_⟩
  unfold require
  split
  · exact .nil hlow
  · exact .single _ hlow (le_refl _)

theorem orderly_refuse : Orderly (refuse : Parser α) := by
  intro low
  refine ⟨compositional_advances.refuse, fun s hs hlow => ?_⟩
  exact .single _ hlow (hs.of_suffix (compositional_advances.refuse s)).2

theorem relational_orderly :
    Relational Eq (fun p _ => Orderly p) (fun t _ p _ => OrderlyFrom t.position p) where
  kind htt' := by rw [htt']
  literal htt' := by rw [htt']
  pure a := orderly_of_errors_eq_nil (compositional_advances.pure a) fun _ => rfl
  peek := orderly_of_errors_eq_nil compositional_advances.peek fun _ => rfl
  next hf := orderly_next_bind fun t => hf t t rfl
  behind hp := hp _
  fail {α cause t t'} hcause _ :=
    ⟨compositional_advances.fail cause t.position hcause.isLocal,
      fun _ _ ht => .single cause (le_refl _) ht⟩
  report {cause t t'} hcause _ :=
    ⟨compositional_advances.report cause t.position hcause.isLocal,
      fun _ _ ht => .single cause (le_refl _) ht⟩
  bindBehind := OrderlyFrom.bind
  require := orderly_require
  skipIf kind := orderly_of_errors_eq_nil (compositional_advances.skipIf kind) fun _ => rfl
  visit weakest := orderly_of_errors_eq_nil (compositional_advances.visit weakest) fun _ => rfl
  refuse := orderly_refuse
  bind hp hf low := (hp low).bind hf
  orSkip hp low := ⟨compositional_advances.orSkip (hp low).advances, (hp low).ascend⟩

theorem orderly_program (room : Nat) : Orderly (program room) := by
  refine (relational_orderly.respected ?_).program room
  intro α p _ hp low
  exact ⟨fun s => (hp _ low).advances s, fun s => (hp _ low).ascend s⟩

end Parser

/-! ## Source texts -/

theorem Program.ascend_errors_read {s : TokenStream} (hs : s.Ascending) :
    SyntaxError.Ascend s.head.position (read s).errors (read s).rest.head.position :=
  (Parser.orderly_program Parser.maxNesting s.head.position).ascend s hs (le_refl _)

/-- Every error of a reading points at a token of the stream or at its end. -/
theorem Program.exists_offers_of_mem_errors
    {s : TokenStream} {e : SyntaxError} (he : e ∈ (Program.read s).errors) :
    ∃ t, s.Offers t ∧ e.position = some t.position := by
  let V : Token → Token → Prop := fun t t' => t = t' ∧ s.Offers t
  have hV : ∀ t t', V t t' → t.SameText t' := by
    rintro t _ ⟨rfl, -⟩
    exact ⟨rfl, rfl⟩
  have hs : s.Alike V s :=
    ⟨List.forall₂_same.mpr fun t ht => ⟨rfl, Or.inl ht⟩, rfl, Or.inr rfl⟩
  have halike := List.forall₂_same.mp (Program.alike_read hV hs).errors e he
  obtain ⟨t, _, hVt, hposition, -⟩ := halike.position
  exact ⟨t, hVt.2, hposition⟩

/-- The errors that are reported for a source text have positions, each of them
that of a token of the text or of its end, and these are in ascending order. -/
theorem reported_errors_ascend (source : String) :
    ∃ places : List Position,
      (SyntaxError.reported (Program.read (.ofSource source)).errors).map SyntaxError.position =
        places.map some ∧
      (∀ p ∈ places,
        (∃ t ∈ (TokenStream.ofSource source).tokens, t.position = p) ∨
          (TokenStream.ofSource source).ending = p) ∧
      places.Pairwise fun p q => p.line < q.line ∨ p.line = q.line ∧ p.column ≤ q.column := by
  have herrors := Program.ascend_errors_read (TokenStream.ascending_ofSource source)
  obtain ⟨places, hreported, hplaces⟩ :=
    herrors.exists_places (SyntaxError.reported_prefix _)
  refine ⟨places, hreported, fun p hp => ?_, hplaces⟩
  have hmem : some p ∈ places.map some := List.mem_map_of_mem hp
  rw [← hreported] at hmem
  obtain ⟨e, he, hposition⟩ := List.mem_map.mp hmem
  obtain ⟨t, ht, hposition'⟩ :=
    Program.exists_offers_of_mem_errors ((SyntaxError.reported_prefix _).subset he)
  obtain rfl : t.position = p := Option.some.inj (hposition'.symm.trans hposition)
  rcases ht with ht | rfl
  · exact Or.inl ⟨t, ht, rfl⟩
  · exact Or.inr rfl

end LetLang
