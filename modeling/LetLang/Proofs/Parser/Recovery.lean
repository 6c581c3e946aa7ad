import LetLang.Proofs.Parser.Lookahead

/-!
# Recovery at a semicolon

Behind a broken statement the reading goes on where it gave up, and the next
semicolon is where it has caught up at the latest.  Take any tokens with a
semicolon behind them and without an opening brace among them.  An expression
never reads past that semicolon, and when it takes the semicolon it fails.  So
whatever is wrong with these tokens, some statement ends exactly behind the
semicolon, and what follows is read as if it stood alone.

An opening brace is excluded because a block looks for its closing brace across
semicolons, and running into the nesting limit because that drops the input.
-/

namespace LetLang
namespace Parser

/-- Tokens that end with a semicolon and have no opening brace and no end of the
input among them. -/
inductive Guarded : List Token → Prop where
  | last {t : Token} : t.kind = .semicolon → Guarded [t]
  | cons {t : Token} {ts : List Token} :
      t.kind ≠ .lbrace → t.kind ≠ .eof → Guarded ts → Guarded (t :: ts)

theorem guarded_append_semicolon
    {ts : List Token} {t : Token} (ht : t.kind = .semicolon)
    (hts : ∀ u ∈ ts, u.kind ≠ .lbrace ∧ u.kind ≠ .eof) : Guarded (ts ++ [t]) := by
  induction ts with
  | nil => exact .last ht
  | cons u ts ih =>
      obtain ⟨hu, hts⟩ := List.forall_mem_cons.mp hts
      exact .cons hu.1 hu.2 (ih hts)

namespace Guarded

variable {t : Token} {ts : List Token}

theorem exists_eq_cons {c : List Token} (h : Guarded c) :
    ∃ t ts, c = t :: ts ∧ t.kind ≠ .lbrace ∧ t.kind ≠ .eof := by
  cases h with
  | last ht => exact ⟨_, _, rfl, by rw [ht]; decide, by rw [ht]; decide⟩
  | cons hbrace heof _ => exact ⟨_, _, rfl, hbrace, heof⟩

theorem of_cons (h : Guarded (t :: ts)) : Guarded ts ∨ ts = [] ∧ t.kind = .semicolon := by
  cases h with
  | last ht => exact Or.inr ⟨rfl, ht⟩
  | cons _ _ hts => exact Or.inl hts

theorem of_cons_of_ne (h : Guarded (t :: ts)) (ht : t.kind ≠ .semicolon) : Guarded ts :=
  h.of_cons.resolve_right fun hsemicolon => ht hsemicolon.2

end Guarded

variable {α β : Type}

/-- On the tokens `c`, whatever follows them, `p` runs into the nesting limit or
settles on an outcome with the property `Q`. -/
def Confined (Q : Option α → List Token → Prop) (p : Parser α) (c : List Token) : Prop :=
  (∀ s : TokenStream, (p (s.prepend c)).HitsLimit) ∨
    ∃ value d errors, Settles p c value d errors ∧ Q value d

/-- The semicolon is still ahead, or it was what the failure is about. -/
def Within (value : Option α) (d : List Token) : Prop :=
  Guarded d ∨ value = none ∧ d = []

/-- The semicolon is still ahead, or it was the last token taken. -/
def Through (_ : Option α) (d : List Token) : Prop :=
  Guarded d ∨ d = []

theorem within_none {d : List Token} (h : Guarded d ∨ d = []) : Within (none : Option α) d :=
  h.imp_right fun hd => ⟨rfl, hd⟩

theorem through_none {d : List Token} (h : Guarded d ∨ d = []) :
    Through (none : Option α) d :=
  h

section Steps

variable {Q : Option α → List Token → Prop} {p q : Parser α} {c : List Token}

theorem confined_of_settles
    {value : Option α} {d : List Token} {errors : List SyntaxError}
    (h : Settles p c value d errors) (hQ : Q value d) : Confined Q p c :=
  Or.inr ⟨value, d, errors, h, hQ⟩

theorem Confined.congr
    (hq : Confined Q q c) (h : ∀ s : TokenStream, p (s.prepend c) = q (s.prepend c)) :
    Confined Q p c := by
  rcases hq with hlimit | ⟨value, d, errors, hq, hQ⟩
  · left
    intro s
    rw [h s]
    exact hlimit s
  · exact confined_of_settles (hq.congr h) hQ

/-- Behind a settled success the rest of a sequence decides. -/
theorem Settles.bind_confined
    {f : α → Parser β} {R : Option β → List Token → Prop} {a : α} {d : List Token}
    {errors : List SyntaxError} (hp : Settles p c (some a) d errors)
    (hf : Confined R (f a) d) : Confined R (p >>= f) c := by
  rcases hf with hlimit | ⟨value, d', errors', hf, hR⟩
  · exact Or.inl (hp.hitsLimit_bind hlimit)
  · exact confined_of_settles (hp.bind hf) hR

theorem Confined.bind
    {f : α → Parser β} {R : Option β → List Token → Prop} (hp : Confined Within p c)
    (hR : ∀ {d}, Guarded d ∨ d = [] → R none d)
    (hf : ∀ a d errors, Settles p c (some a) d errors → Guarded d → Confined R (f a) d) :
    Confined R (p >>= f) c := by
  rcases hp with hlimit | ⟨value, d, errors, hp, hd⟩
  · exact Or.inl fun s => hitsLimit_bind (hlimit s)
  · cases value with
    | none => exact confined_of_settles (hp.bind_none f) (hR (hd.imp_right And.right))
    | some a =>
        have hguarded : Guarded d := hd.resolve_right (by simp)
        exact hp.bind_confined (hf a d errors hp hguarded)

theorem confined_expect_bind
    {f : Token → Parser β} {R : Option β → List Token → Prop} {kind : TokenKind}
    (hkind : kind ≠ .semicolon) (hc : Guarded c)
    (hR : ∀ {d}, Guarded d ∨ d = [] → R none d)
    (hf : ∀ t d, Guarded d → Confined R (f t) d) : Confined R (expect kind >>= f) c := by
  obtain ⟨t, ts, rfl, -, -⟩ := hc.exists_eq_cons
  rw [expect, bind_assoc]
  by_cases ht : t.kind = kind
  · have hts : Guarded ts := hc.of_cons_of_ne (ht ▸ hkind)
    refine (settles_require_of_eq ht ts).bind_confined ?_
    exact (settles_next t ts).bind_confined (hf t ts hts)
  · exact confined_of_settles ((settles_require_of_ne ht ts).bind_none _) (hR (Or.inl hc))

end Steps

/-! ## Expressions stay within -/

section Phrases

variable {operand : Precedence → Parser Expr} {body : Parser Block}
  (hoperand : ∀ weakest c, Guarded c → Confined Within (operand weakest) c)
include hoperand

/-- No block can follow the condition, so a conditional fails. -/
theorem confined_conditional {c : List Token} (hc : Guarded c) :
    Confined Within (conditional operand body) c := by
  refine confined_expect_bind (by decide) hc within_none fun _ d hd => ?_
  refine (hoperand _ d hd).bind within_none fun condition d _ _ hd => ?_
  refine confined_expect_bind (by decide) hd within_none fun _ d hd => ?_
  obtain ⟨t, ts, rfl, hbrace, -⟩ := hd.exists_eq_cons
  exact confined_of_settles ((settles_require_of_ne hbrace ts).bind_none _) (Or.inl hd)

theorem confined_leading {c : List Token} (hc : Guarded c) :
    Confined Within (leading operand body) c := by
  obtain ⟨t, ts, rfl, -, -⟩ := hc.exists_eq_cons
  refine (settles_next t ts).bind_confined ?_
  obtain hts | ⟨rfl, ht⟩ := hc.of_cons
  · have hpure (a : Expr) {d : List Token} (hd : Guarded d) :
        Confined Within (pure a : Parser Expr) d :=
      confined_of_settles (settles_pure a d) (Or.inl hd)
    have hfail (cause : SyntaxError.Cause) :
        Confined Within (fail cause t.position : Parser Expr) ts :=
      confined_of_settles (settles_fail cause _ ts) (Or.inl hts)
    have hunary (op : UnaryOp) :
        Confined Within (operand .unary >>= fun a => pure (Expr.unary op a)) ts :=
      (hoperand _ ts hts).bind within_none fun _ _ _ _ hd => hpure _ hd
    split
    · exact hpure _ hts
    · split
      · exact hpure _ hts
      · exact hfail _
    · exact hpure _ hts
    · exact hpure _ hts
    · exact hunary .not
    · exact hunary .neg
    · refine (hoperand _ ts hts).bind within_none fun inner d _ _ hd => ?_
      exact confined_expect_bind (by decide) hd within_none fun _ _ hd => hpure _ hd
    · exact confined_conditional hoperand hts
    · exact hfail _
  · simp only [ht]
    exact confined_of_settles (settles_fail _ _ []) (Or.inr ⟨rfl, rfl⟩)

/-- The induction is on the tokens in front of the semicolon: every further
operator takes at least one of them. -/
theorem confined_operators
    (hadvances : ∀ weakest, Advances (operand weakest)) (weakest : Precedence)
    {c : List Token} (hc : Guarded c) (left : Expr) :
    Confined Within (operators operand weakest left) c := by
  induction hlength : c.length using Nat.strongRecOn generalizing c left with
  | ind n ih =>
      obtain ⟨t, ts, rfl, -, -⟩ := hc.exists_eq_cons
      obtain hends | ⟨op, hop, hlt⟩ := endsOperators_or_exists_op weakest t.kind
      · have hpure : Confined Within (pure left : Parser Expr) (t :: ts) :=
          confined_of_settles (settles_pure left _) (Or.inl hc)
        exact hpure.congr fun s => operators_apply_of_ends hends
      · have hts : Guarded ts := by
          apply hc.of_cons_of_ne
          intro hsemicolon
          simp [hsemicolon, BinaryOp.ofKind?] at hop
        refine Confined.congr ?_ fun s => operators_apply_of_op hadvances hop hlt
        refine (settles_next t ts).bind_confined ?_
        refine (hoperand _ ts hts).bind within_none fun right d errors hright hd => ?_
        have hshorter : d.length ≤ ts.length :=
          (hright.suffix (hadvances op.precedence)).length_le
        refine ih d.length ?_ hd _ rfl
        rw [← hlength, List.length_cons]
        omega

end Phrases

theorem confined_expression
    (room : Nat) (weakest : Precedence) {c : List Token} (hc : Guarded c) :
    Confined Within (expression room weakest) c := by
  induction room generalizing weakest c with
  | zero => exact Or.inl fun s => ⟨_, List.mem_cons_self, rfl⟩
  | succ room ih =>
      refine (settles_visit weakest c).bind_confined ?_
      have hleading : Confined Within (leading (expression room) (block room)) c :=
        confined_leading (fun weakest c hc => ih weakest hc) hc
      refine hleading.bind within_none fun left d _ _ hd => ?_
      exact confined_operators (fun weakest c hc => ih weakest hc) (advances_expression room)
        weakest hd left

/-! ## A statement may take the semicolon -/

theorem confined_value
    (room : Nat) (f : Expr → Stmt) {c : List Token} (hc : Guarded c) :
    Confined Through
      (do
        let value ← expression room .lowest
        skipIf .semicolon
        pure (f value)) c := by
  refine (confined_expression room .lowest hc).bind through_none fun value d _ _ hd => ?_
  obtain ⟨t, ts, rfl, -, -⟩ := hd.exists_eq_cons
  refine confined_of_settles ((settles_skipIf _ t ts).bind (settles_pure _ _)) ?_
  by_cases ht : t.kind = .semicolon
  · rw [if_pos ht]
    exact hd.of_cons.imp_right And.left
  · rw [if_neg ht]
    exact Or.inl hd

theorem confined_statement (room : Nat) {c : List Token} (hc : Guarded c) :
    Confined Through (statement (expression room) (block room)) c := by
  obtain ⟨t, ts, rfl, hbrace, -⟩ := hc.exists_eq_cons
  refine (settles_peek t ts).bind_confined ?_
  have hts (ht : t.kind ≠ .semicolon) : Guarded ts := hc.of_cons_of_ne ht
  split
  · next ht =>
    refine (settles_next t ts).bind_confined ?_
    refine confined_expect_bind (by decide) (hts (by simp [ht])) through_none fun name d hd => ?_
    refine confined_expect_bind (by decide) hd through_none fun _ d hd => ?_
    exact confined_value room _ hd
  · next ht =>
    refine (settles_next t ts).bind_confined ?_
    exact confined_value room _ (hts (by simp [ht]))
  · next ht => exact absurd ht hbrace
  · exact confined_value room _ hc

/-! ## What follows the semicolon is read on its own -/

/-- The tokens `c` contribute these statements and these errors, and what follows
them is read as if it stood alone. -/
def Contributes (p : Parser (List Stmt)) (c : List Token) (body : List Stmt)
    (errors : List SyntaxError) : Prop :=
  ∀ s : TokenStream,
    (p (s.prepend c)).value = (p s).value.map (body ++ ·) ∧
      (p (s.prepend c)).errors = errors ++ (p s).errors

theorem Contributes.cons
    {statement : Parser Stmt} {stops : TokenKind → Bool} {t : Token} {ts d : List Token}
    {first : Option Stmt} {body : List Stmt} {errors errors' : List SyntaxError}
    (hconsumes : Consumes statement) (heof : stops .eof = true) (ht : stops t.kind = false)
    (hfirst : Settles statement (t :: ts) first d errors)
    (hothers : Contributes (sequence statement stops) d body errors') :
    Contributes (sequence statement stops) (t :: ts) (first.toList ++ body)
      (errors ++ errors') := by
  intro s
  obtain ⟨hvalue, hrest, herrors⟩ := hfirst.orSkip s
  obtain ⟨hvalue', herrors'⟩ := hothers s
  rw [sequence_apply_of_not_stops (s := s.prepend (t :: ts)) hconsumes heof ht,
    bind_apply_of_eq_some hvalue, hrest, herrors, bind_pure_apply, hvalue', herrors',
    Option.map_map]
  constructor
  · simp only [Function.comp_def, List.append_assoc]
  · exact (List.append_assoc _ _ _).symm

/-- The induction is on the tokens up to the semicolon, of which every statement
takes at least one. -/
theorem hitsLimit_or_contributes
    (room : Nat) {c : List Token} (hc : Guarded c ∨ c = []) :
    (∀ s : TokenStream, (sequence (statement (expression room) (block room)) endsProgram
      (s.prepend c)).HitsLimit) ∨
    ∃ body errors, Contributes
      (sequence (statement (expression room) (block room)) endsProgram) c body errors := by
  have hconsumes : Consumes (statement (expression room) (block room)) :=
    consumes_statement room
  induction hlength : c.length using Nat.strongRecOn generalizing c with
  | ind n ih =>
      obtain hc | rfl := hc
      · obtain ⟨t, ts, rfl, -, ht⟩ := hc.exists_eq_cons
        have hstops : endsProgram t.kind = false := decide_eq_false ht
        have hstep (s : TokenStream) :=
          sequence_apply_of_not_stops (s := s.prepend (t :: ts)) hconsumes rfl hstops
        rcases confined_statement room hc with hlimit | ⟨first, d, errors, hfirst, hd⟩
        · left
          intro s
          rw [hstep s]
          exact hitsLimit_bind (p := orSkip _) (hlimit s)
        · have hshorter : d.length ≤ ts.length := (hfirst.suffix_tail hconsumes).length_le
          have hbehind := ih d.length (by rw [← hlength, List.length_cons]; omega) hd rfl
          rcases hbehind with hlimit | ⟨body, errors', hothers⟩
          · left
            intro s
            rw [hstep s]
            exact hfirst.orSkip.hitsLimit_bind (fun s => hitsLimit_bind (hlimit s)) s
          · exact Or.inr ⟨_, _, hothers.cons hconsumes rfl hstops hfirst⟩
      · exact Or.inr ⟨[], [], fun s => by simp⟩

end Parser

namespace Program

/-- Without tokens behind them, the end of the input lies at other tokens, but
then there is nothing to read. -/
theorem read_ofList_append
    {c : List Token} {statements : List Stmt} {errors : List SyntaxError}
    (h : body.Contributes c statements errors) (rest : List Token) :
    (read (.ofList (c ++ rest))).value =
        (read (.ofList rest)).value.map (fun p => ⟨statements ++ p.statements⟩) ∧
      (read (.ofList (c ++ rest))).errors = errors ++ (read (.ofList rest)).errors := by
  let s : TokenStream := ⟨rest, (TokenStream.ofList (c ++ rest)).ending⟩
  have hs : (body s).value = (body (.ofList rest)).value ∧
      (body s).errors = (body (.ofList rest)).errors := by
    cases rest with
    | nil => exact ⟨rfl, rfl⟩
    | cons t ts =>
        have hending : (TokenStream.ofList (c ++ t :: ts)).ending =
            (TokenStream.ofList (t :: ts)).ending := by
          simp [TokenStream.ofList, List.getLast?_append, List.getLast?_cons]
        simp only [s, hending]
        exact ⟨rfl, rfl⟩
  obtain ⟨hvalue, herrors⟩ := h s
  have happend : TokenStream.ofList (c ++ rest) = s.prepend c := rfl
  constructor
  · simp only [read_eq, happend, hvalue, hs.1, Option.map_map, Function.comp_def]
  · simp only [read_eq, happend, herrors, hs.2]

end Program

/-- Tokens without an opening brace, however wrong they are, affect nothing behind
the semicolon that follows them: the statements and the errors of the whole are
those up to the semicolon followed by those of the rest on its own. -/
theorem read_append_semicolon
    (broken rest : List Token) (semicolon : Token)
    (hbroken : ∀ t ∈ broken, t.kind ≠ .lbrace ∧ t.kind ≠ .eof)
    (hsemicolon : semicolon.kind = .semicolon)
    (hlimit : ¬(Program.read (.ofList (broken ++ [semicolon]))).HitsLimit) :
    ∃ body others : List Stmt,
      (Program.read (.ofList (broken ++ [semicolon]))).value = some ⟨body⟩ ∧
      (Program.read (.ofList rest)).value = some ⟨others⟩ ∧
      (Program.read (.ofList (broken ++ [semicolon] ++ rest))).value = some ⟨body ++ others⟩ ∧
      SyntaxError.reported (Program.read (.ofList (broken ++ [semicolon] ++ rest))).errors =
        SyntaxError.reported (Program.read (.ofList (broken ++ [semicolon]))).errors ++
          SyntaxError.reported (Program.read (.ofList rest)).errors := by
  have hguarded := Parser.guarded_append_semicolon hsemicolon hbroken
  have hcontributes : ∃ body errors,
      Program.body.Contributes (broken ++ [semicolon]) body errors := by
    refine (Parser.hitsLimit_or_contributes _ (Or.inl hguarded)).resolve_left fun hall => ?_
    have happend : TokenStream.ofList (broken ++ [semicolon]) =
        TokenStream.prepend (broken ++ [semicolon]) ⟨[], semicolon.position⟩ := by
      simp [TokenStream.ofList, TokenStream.prepend]
    rw [happend, Program.read_eq] at hlimit
    exact hlimit (hall _)
  obtain ⟨body, errors, hbody⟩ := hcontributes
  have hfirst : (Program.read (.ofList (broken ++ [semicolon]))).value = some ⟨body⟩ ∧
      (Program.read (.ofList (broken ++ [semicolon]))).errors = errors := by
    have hnil : Program.read (.ofList []) = ⟨some ⟨[]⟩, .ofList [], [], []⟩ :=
      Program.read_nil _
    simpa [hnil] using Program.read_ofList_append hbody []
  obtain ⟨others, hothers⟩ := Program.exists_value_read (.ofList rest)
  obtain ⟨hvalue, herrors⟩ := Program.read_ofList_append hbody rest
  refine ⟨body, others, hfirst.1, hothers, ?_, ?_⟩
  · rw [hvalue, hothers, Option.map_some]
  · have hfree : ¬SyntaxError.HitsLimit errors := hfirst.2 ▸ hlimit
    rw [herrors, hfirst.2, SyntaxError.reported_append_of_not_hitsLimit hfree,
      SyntaxError.reported_eq_self hfree]

/-- A definition without a name, a parenthesis too many and a conditional without
a block, and behind the semicolon a definition that is missing its value. -/
theorem read_append_semicolon_four_errors :
    ∃ (broken rest : List Token) (semicolon : Token),
      broken = [⟨.letWord, "let", ⟨1, 1⟩⟩, ⟨.int, "5", ⟨1, 5⟩⟩, ⟨.rparen, ")", ⟨1, 6⟩⟩,
        ⟨.ifWord, "if", ⟨1, 8⟩⟩, ⟨.lparen, "(", ⟨1, 11⟩⟩, ⟨.ident, "x", ⟨1, 12⟩⟩,
        ⟨.rparen, ")", ⟨1, 13⟩⟩] ∧
      semicolon = ⟨.semicolon, ";", ⟨1, 14⟩⟩ ∧
      rest = [⟨.ident, "y", ⟨2, 1⟩⟩, ⟨.letWord, "let", ⟨2, 3⟩⟩, ⟨.ident, "z", ⟨2, 7⟩⟩] ∧
      (∀ t ∈ broken, t.kind ≠ .lbrace ∧ t.kind ≠ .eof) ∧
      ¬(Program.read (.ofList (broken ++ [semicolon]))).HitsLimit ∧
      (Program.read (.ofList (broken ++ [semicolon]))).errors.length = 4 ∧
      ∃ body others : List Stmt,
        (Program.read (.ofList (broken ++ [semicolon]))).value = some ⟨body⟩ ∧
        (Program.read (.ofList rest)).value = some ⟨others⟩ ∧
        (Program.read (.ofList (broken ++ [semicolon] ++ rest))).value =
          some ⟨body ++ others⟩ ∧
        SyntaxError.reported (Program.read (.ofList (broken ++ [semicolon] ++ rest))).errors =
          SyntaxError.reported (Program.read (.ofList (broken ++ [semicolon]))).errors ++
            SyntaxError.reported (Program.read (.ofList rest)).errors := by
  refine ⟨_, _, _, rfl, rfl, rfl, by decide, by decide, by decide, ?_⟩
  exact read_append_semicolon _ _ _ (by decide) rfl (by decide)

end LetLang
