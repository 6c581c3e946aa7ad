import LetLang.Proofs.Lexing.Segmentation
import LetLang.Proofs.Parser.Diagnostics

/-!
# Where the tokens come from

The tokens of a text can be read as they are found, or they can be collected in a
list first and read from there.  The list may keep the end-of-input token of the
text or leave it to the stream over the list, which then puts one of its own at
the place of the last token.

With the end-of-input token in the list both streams hand out the same tokens, for
ever.  A parser has no other access to a stream, so it does not see a difference,
also where it draws tokens past the end: the number of tokens ahead is no more
than a bound on loops that end before they reach it.  Without that token the
streams differ in the place of the end, and places go into errors only.
-/

namespace LetLang

/-! ## Streams that hand out the same tokens -/

namespace TokenStream

/-- However many tokens are drawn, both streams hand out the same. -/
def Agrees (s s' : TokenStream) : Prop :=
  ∀ n, s.take n = s'.take n

namespace Agrees

variable {s s' : TokenStream} (h : s.Agrees s')
include h

theorem head : s.head = s'.head :=
  (List.cons.inj (h 1)).1

theorem tail : s.tail.Agrees s'.tail := by
  intro n
  exact (List.cons.inj (h (n + 1))).2

end Agrees

theorem afterEof_of_head_eq_eof {s : TokenStream} (hs : s.head.kind = .eof) :
    s.afterEof = s.tail := by
  obtain ⟨tokens, ending⟩ := s
  cases tokens with
  | nil => rfl
  | cons t ts =>
      have ht : t.kind = .eof := hs
      simp [afterEof, ht]

theorem afterEof_of_head_ne_eof {s : TokenStream} (hs : s.head.kind ≠ .eof) :
    s.afterEof = s.tail.afterEof := by
  obtain ⟨tokens, ending⟩ := s
  cases tokens with
  | nil => rfl
  | cons t ts =>
      have ht : t.kind ≠ .eof := hs
      simp [afterEof, ht]

/-- Dropping everything up to the end of the input is drawing tokens, too. -/
theorem Agrees.afterEof {s s' : TokenStream} (h : s.Agrees s') :
    s.afterEof.Agrees s'.afterEof := by
  induction hlength : s.tokens.length using Nat.strongRecOn generalizing s s' with
  | ind n ih =>
      by_cases hs : s.head.kind = .eof
      · have hs' : s'.head.kind = .eof := by rw [← h.head, hs]
        rw [afterEof_of_head_eq_eof hs, afterEof_of_head_eq_eof hs']
        exact h.tail
      · have hs' : s'.head.kind ≠ .eof := by rwa [← h.head]
        rw [afterEof_of_head_ne_eof hs, afterEof_of_head_ne_eof hs']
        have hpos : s.tokens.length ≠ 0 := fun hzero =>
          hs (Parser.head_kind_of_length_le_zero (Nat.le_of_eq hzero))
        have hshorter : s.tail.tokens.length < n := by
          rw [tokens_tail, List.length_tail]
          omega
        exact ih _ hshorter h.tail rfl

/-- A list of tokens may end with the end-of-input token that comes behind it. -/
theorem agrees_append_eof (ts : List Token) (ending : Position) :
    Agrees ⟨ts ++ [Token.eof ending], ending⟩ ⟨ts, ending⟩ := by
  induction ts with
  | nil =>
      intro n
      cases n with
      | zero => rfl
      | succ n => rfl
  | cons t ts ih =>
      intro n
      cases n with
      | zero => rfl
      | succ n => exact congrArg (List.cons t) (ih n)

end TokenStream

/-- Two readings with the same outcome that leave streams with the same tokens. -/
structure Reading.Agrees {α : Type} (r r' : Reading α) : Prop where
  value : r.value = r'.value
  rest : r.rest.Agrees r'.rest
  errors : r.errors = r'.errors
  visits : r.visits = r'.visits

namespace Parser

/-- On streams that hand out the same tokens two parsers have the same outcome. -/
def Agrees {α : Type} (p q : Parser α) : Prop :=
  ∀ s s', s.Agrees s' → (p s).Agrees (q s')

theorem Agrees.bind
    {α β : Type} {p q : Parser α} {f g : α → Parser β}
    (hpq : p.Agrees q) (hfg : ∀ a, (f a).Agrees (g a)) : (p >>= f).Agrees (q >>= g) := by
  intro s s' h
  have hfirst := hpq s s' h
  cases hvalue : (p s).value with
  | none =>
      have hvalue' : (q s').value = none := by rw [← hfirst.value, hvalue]
      rw [bind_apply_of_eq_none hvalue, bind_apply_of_eq_none hvalue']
      exact ⟨rfl, hfirst.rest, hfirst.errors, hfirst.visits⟩
  | some a =>
      have hvalue' : (q s').value = some a := by rw [← hfirst.value, hvalue]
      have hsecond := hfg a _ _ hfirst.rest
      rw [bind_apply_of_eq_some hvalue, bind_apply_of_eq_some hvalue']
      refine ⟨hsecond.value, hsecond.rest, ?_, ?_⟩
      · rw [hfirst.errors, hsecond.errors]
      · rw [hfirst.visits, hsecond.visits]

theorem relational_agrees : Relational Eq Agrees where
  kind htt' := by rw [htt']
  literal htt' := by rw [htt']
  pure a s s' h := ⟨rfl, h, rfl, rfl⟩
  peek s s' h := ⟨by rw [peek, peek, h.head], h, rfl, rfl⟩
  next {α f g} hfg s s' h := by
    have hsecond := hfg s.head s'.head h.head _ _ h.tail
    exact ⟨hsecond.value, hsecond.rest, hsecond.errors, hsecond.visits⟩
  behind hpq := hpq
  bindBehind := Agrees.bind
  fail _ htt' s s' h := ⟨rfl, h, by rw [fail, fail, htt'], rfl⟩
  report _ htt' s s' h := ⟨rfl, h, by rw [report, report, htt'], rfl⟩
  require kind s s' h := by
    unfold require
    rw [h.head]
    split
    · exact ⟨rfl, h, rfl, rfl⟩
    · exact ⟨rfl, h, rfl, rfl⟩
  skipIf kind s s' h := by
    unfold skipIf
    rw [h.head]
    split
    · exact ⟨rfl, h.tail, rfl, rfl⟩
    · exact ⟨rfl, h, rfl, rfl⟩
  visit weakest s s' h := ⟨rfl, h, rfl, by rw [visit, visit, h.head]⟩
  refuse s s' h := ⟨rfl, h.afterEof, by rw [refuse, refuse, h.head], rfl⟩
  bind := Agrees.bind
  orSkip {α p q} hpq s s' h := by
    have hreading := hpq s s' h
    exact ⟨congrArg some hreading.value, hreading.rest, hreading.errors, hreading.visits⟩

/-- The streams may differ in the number of their tokens, so the loops have
different bounds.  A bound that suffices for both does not change the outcome of
either. -/
theorem respected_agrees : Respected Eq Agrees where
  toRelational := relational_agrees
  operators room weakest left hexpression s s' h := by
    let enough := max s.tokens.length s'.tokens.length
    have hs : operators (expression room) weakest left s =
        chain (expression room) weakest enough left s :=
      chain_apply_eq (advances_expression room) (Nat.le_refl _) (Nat.le_max_left _ _)
    have hs' : operators (expression room) weakest left s' =
        chain (expression room) weakest enough left s' :=
      chain_apply_eq (advances_expression room) (Nat.le_refl _) (Nat.le_max_right _ _)
    rw [hs, hs']
    exact relational_agrees.chain hexpression weakest enough left s s' h
  sequence room stops heof hstatement s s' h := by
    let enough := max s.tokens.length s'.tokens.length
    have hs : sequence (statement (expression room) (block room)) stops s =
        statements (statement (expression room) (block room)) stops enough s :=
      statements_apply_eq (consumes_statement room) heof (Nat.le_refl _) (Nat.le_max_left _ _)
    have hs' : sequence (statement (expression room) (block room)) stops s' =
        statements (statement (expression room) (block room)) stops enough s' :=
      statements_apply_eq (consumes_statement room) heof (Nat.le_refl _) (Nat.le_max_right _ _)
    rw [hs, hs']
    exact relational_agrees.statements hstatement stops enough s s' h

end Parser

/-- A program is read alike off streams that hand out the same tokens. -/
theorem Program.agrees_read {s s' : TokenStream} (h : s.Agrees s') :
    (Program.read s).Agrees (Program.read s') :=
  Parser.respected_agrees.program Parser.maxNesting s s' h

/-! ## Streams that end at different places -/

/-- An error at `p` moved to `q`, and any other error where it is. -/
def SyntaxError.relocated (p q : Position) (e : SyntaxError) : SyntaxError :=
  if e.position = some p then { e with position := some q } else e

theorem SyntaxError.cause_relocated (p q : Position) (e : SyntaxError) :
    (relocated p q e).cause = e.cause := by
  unfold relocated
  split
  · rfl
  · rfl

theorem SyntaxError.message_relocated (p q : Position) (e : SyntaxError) :
    (relocated p q e).message = e.message :=
  congrArg Cause.message (cause_relocated p q e)

theorem SyntaxError.reported_map_relocated (p q : Position) (errors : List SyntaxError) :
    reported (errors.map (relocated p q)) = (reported errors).map (relocated p q) := by
  induction errors with
  | nil => rfl
  | cons e errors ih =>
      rw [List.map_cons, reported, reported, cause_relocated, ih]
      split
      · rfl
      · rfl

/-- If no token stands where the input ends, then the errors there, and no others,
move along with the end. -/
theorem Program.read_of_ending
    (ts : List Token) {p : Position} (hp : ∀ t ∈ ts, t.position ≠ p) (q : Position) :
    (read ⟨ts, q⟩).value = (read ⟨ts, p⟩).value ∧
      (read ⟨ts, q⟩).errors = (read ⟨ts, p⟩).errors.map (SyntaxError.relocated p q) := by
  let V : Token → Token → Prop := fun t t' =>
    t = t' ∧ t ∈ ts ∨ t = Token.eof p ∧ t' = Token.eof q
  have hV : ∀ t t', V t t' → t.SameText t' := by
    rintro t t' (⟨rfl, -⟩ | ⟨rfl, rfl⟩)
    · exact ⟨rfl, rfl⟩
    · exact ⟨rfl, rfl⟩
  have hstreams : TokenStream.Alike V ⟨ts, p⟩ ⟨ts, q⟩ :=
    ⟨List.forall₂_same.mpr fun t ht => Or.inl ⟨rfl, ht⟩, Or.inr ⟨rfl, rfl⟩⟩
  have halike := Program.alike_read hV hstreams
  have hmoved : ∀ e e', SyntaxError.Alike V e e' → SyntaxError.relocated p q e = e' := by
    rintro ⟨cause, position⟩ ⟨cause', position'⟩ ⟨rfl, t, t', htt', rfl, rfl⟩
    rcases htt' with ⟨rfl, ht⟩ | ⟨rfl, rfl⟩
    · have hne : some t.position ≠ some p := fun heq => hp t ht (Option.some.inj heq)
      rw [SyntaxError.relocated, if_neg hne]
    · exact if_pos rfl
  refine ⟨halike.value.symm, ?_⟩
  exact (List.forall₂_eq_eq_eq ▸ List.forall₂_map_left_iff.mpr (halike.errors.imp hmoved)).symm

/-! ## The tokens of a text -/

theorem Position.lt_after (p : Position) (c : Char) : p < p.after c := by
  refine lt_of_le_not_ge (p.le_after c) ?_
  unfold after
  split
  · rintro (h | ⟨h, -⟩)
    · exact absurd h (by simp only; omega)
    · exact absurd h (by simp only; omega)
  · rintro (h | ⟨-, h⟩)
    · exact absurd h (by simp only; omega)
    · exact absurd h (by simp only; omega)

theorem Position.le_afterAll (p : Position) (text : List Char) : p ≤ p.afterAll text := by
  induction text generalizing p with
  | nil => exact le_refl p
  | cons c text ih => exact (p.le_after c).trans (ih (p.after c))

/-- Every token of a text stands before the end of the text. -/
theorem position_lt_of_mem_scan
    {busy : Nat} {p : Position} {text : List Char} {t : Token} (ht : t ∈ scan busy p text) :
    t.position < p.afterAll text := by
  induction text generalizing busy p with
  | nil =>
      rw [scan] at ht
      exact absurd ht List.not_mem_nil
  | cons c text ih =>
      cases busy with
      | succ busy => exact ih ht
      | zero =>
          rw [scan] at ht
          split at ht
          · exact ih ht
          · rcases List.mem_cons.mp ht with rfl | ht
            · exact (p.lt_after c).trans_le ((p.after c).le_afterAll text)
            · exact ih ht

namespace TokenStream

/-- The tokens in front of the first end-of-input token. -/
def beforeEof (s : TokenStream) : List Token :=
  s.tokens.takeWhile (·.kind ≠ .eof)

/-- The tokens that are drawn up to the first end-of-input token, with that token. -/
def throughEof (s : TokenStream) : List Token :=
  s.take (s.beforeEof.length + 1)

theorem beforeEof_ofSource (source : String) :
    (ofSource source).beforeEof = (ofSource source).tokens := by
  rw [beforeEof, List.takeWhile_eq_self_iff]
  intro t ht
  exact decide_eq_true (kind_ne_eof_of_mem_scan ht)

theorem throughEof_ofSource (source : String) :
    (ofSource source).throughEof =
      (ofSource source).tokens ++ [Token.eof (ofSource source).ending] := by
  rw [throughEof, beforeEof_ofSource, take_length_add]
  rfl

theorem agrees_ofList_throughEof (source : String) :
    (ofList (ofSource source).throughEof).Agrees (ofSource source) := by
  have hending : ofList (ofSource source).throughEof =
      ⟨(ofSource source).tokens ++ [Token.eof (ofSource source).ending],
        (ofSource source).ending⟩ := by
    rw [throughEof_ofSource, ofList, List.getLast?_append]
    rfl
  rw [hending]
  exact agrees_append_eof _ _

end TokenStream

namespace Program

/-- Reads the tokens of a text off a list that holds its end-of-input token. -/
def readBuffered (source : String) : Reading Program :=
  read (.ofList (TokenStream.ofSource source).throughEof)

/-- Reads the tokens of a text off a list that lacks its end-of-input token. -/
def readUnended (source : String) : Reading Program :=
  read (.ofList (TokenStream.ofSource source).beforeEof)

theorem agrees_readBuffered (source : String) :
    (readBuffered source).Agrees (read (.ofSource source)) :=
  agrees_read (TokenStream.agrees_ofList_throughEof source)

/-- The list ends at the position of its last token, so the errors at the end of the
text move there. -/
theorem readUnended_relocates (source : String) :
    (readUnended source).value = (read (.ofSource source)).value ∧
      SyntaxError.reported (readUnended source).errors =
        (SyntaxError.reported (read (.ofSource source)).errors).map
          (SyntaxError.relocated (TokenStream.ofSource source).ending
            (TokenStream.ofList (TokenStream.ofSource source).tokens).ending) := by
  have hapart : ∀ t ∈ (TokenStream.ofSource source).tokens,
      t.position ≠ (TokenStream.ofSource source).ending :=
    fun t ht => (position_lt_of_mem_scan ht).ne
  obtain ⟨hvalue, herrors⟩ := read_of_ending _ hapart
    (TokenStream.ofList (TokenStream.ofSource source).tokens).ending
  unfold readUnended
  rw [TokenStream.beforeEof_ofSource, ← SyntaxError.reported_map_relocated]
  exact ⟨hvalue, congrArg SyntaxError.reported herrors⟩

theorem errors_read_of_tokens_eq_nil {s : TokenStream} (hs : s.tokens = []) :
    (read s).errors = [] := by
  obtain ⟨tokens, ending⟩ := s
  obtain rfl : tokens = [] := hs
  rw [read_nil]

end Program

/-- The tokens of a source text, drawn up to and including the first end-of-input
token, are read from a list as they are read from the text itself: as the same
program and with the same errors at the same places.

Without the end-of-input token the program is still the same, and so are the errors
but for their places.  Those at the end of the text, where no token stands, are
found at the last token; the others do not move.  A text without tokens has no
errors. -/
theorem buffered_tokens_read_like_source (source : String) :
    (EofFree (TokenStream.ofSource source).beforeEof ∧
      (TokenStream.ofSource source).throughEof =
        (TokenStream.ofSource source).beforeEof ++
          [Token.eof (TokenStream.ofSource source).ending]) ∧
    ((Program.readBuffered source).value = (Program.read (.ofSource source)).value ∧
      SyntaxError.reported (Program.readBuffered source).errors =
        SyntaxError.reported (Program.read (.ofSource source)).errors) ∧
    ((Program.readUnended source).value = (Program.read (.ofSource source)).value ∧
      (SyntaxError.reported (Program.readUnended source).errors).map SyntaxError.message =
        (SyntaxError.reported (Program.read (.ofSource source)).errors).map
          SyntaxError.message) ∧
    (∀ t ∈ (TokenStream.ofSource source).beforeEof,
      t.position ≠ (TokenStream.ofSource source).ending) ∧
    ((∃ last, (TokenStream.ofSource source).beforeEof.getLast? = some last ∧
        SyntaxError.reported (Program.readUnended source).errors =
          (SyntaxError.reported (Program.read (.ofSource source)).errors).map
            (SyntaxError.relocated (TokenStream.ofSource source).ending last.position)) ∨
      (TokenStream.ofSource source).beforeEof = [] ∧
        SyntaxError.reported (Program.readUnended source).errors = [] ∧
        SyntaxError.reported (Program.read (.ofSource source)).errors = []) := by
  have hbuffered := Program.agrees_readBuffered source
  obtain ⟨hvalue, hreported⟩ := Program.readUnended_relocates source
  rw [TokenStream.beforeEof_ofSource]
  refine ⟨⟨fun t ht => kind_ne_eof_of_mem_scan ht, TokenStream.throughEof_ofSource source⟩,
    ⟨hbuffered.value, congrArg SyntaxError.reported hbuffered.errors⟩, ⟨hvalue, ?_⟩,
    fun t ht => (position_lt_of_mem_scan ht).ne, ?_⟩
  · rw [hreported, List.map_map]
    exact List.map_congr_left fun e _ => SyntaxError.message_relocated _ _ e
  · cases hlast : (TokenStream.ofSource source).tokens.getLast? with
    | some last =>
        have hending : (TokenStream.ofList (TokenStream.ofSource source).tokens).ending =
            last.position := by
          rw [TokenStream.ofList, hlast]
          rfl
        exact Or.inl ⟨last, rfl, hending ▸ hreported⟩
    | none =>
        have hnil := List.getLast?_eq_none_iff.mp hlast
        have hdirect := Program.errors_read_of_tokens_eq_nil hnil
        refine Or.inr ⟨hnil, ?_, ?_⟩
        · rw [hreported, hdirect]
          rfl
        · rw [hdirect]
          rfl

/-- The text ends on a line below its last token.  The error about the missing
operand goes back to that token, and the errors at the equals sign stay there. -/
theorem buffered_tokens_read_like_source_missing_operand :
    ∃ (source : String) (errors : List SyntaxError),
      source = "let = 1; 2 *  \n " ∧
      errors = [⟨.unexpected .ident .assign, some ⟨1, 5⟩⟩, ⟨.noExpression .assign, some ⟨1, 5⟩⟩] ∧
      SyntaxError.reported (Program.read (.ofSource source)).errors =
        errors ++ [⟨.noExpression .eof, some ⟨2, 2⟩⟩] ∧
      SyntaxError.reported (Program.readUnended source).errors =
        errors ++ [⟨.noExpression .eof, some ⟨1, 12⟩⟩] := by
  have hdirect : SyntaxError.reported (Program.read (.ofSource "let = 1; 2 *  \n ")).errors =
      [⟨.unexpected .ident .assign, some ⟨1, 5⟩⟩, ⟨.noExpression .assign, some ⟨1, 5⟩⟩,
        ⟨.noExpression .eof, some ⟨2, 2⟩⟩] := by
    decide +kernel
  obtain ⟨-, -, -, -, hcases⟩ := buffered_tokens_read_like_source "let = 1; 2 *  \n "
  refine ⟨_, _, rfl, rfl, hdirect, ?_⟩
  rcases hcases with ⟨last, hlast, herrors⟩ | ⟨hnil, -⟩
  · obtain rfl : ⟨.asterisk, "*", ⟨1, 12⟩⟩ = last := Option.some.inj hlast
    rw [herrors, hdirect]
    rfl
  · exact absurd hnil (by decide +kernel)

end LetLang
