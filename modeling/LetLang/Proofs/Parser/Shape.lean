import LetLang.Proofs.Lexing.Segmentation
import LetLang.Proofs.Parser.Progress

/-!
# The shape of the trees that are read

Whatever the tokens of a text are, the trees that the parsers build from them use
names and literals of the language only, and they are nested no deeper than the
room that was left when their reading started.  This is so for all trees that
come out of a reading, also for those that are put together while errors are
found, and for the pieces that are kept when the nesting is refused.

The left operands of a chain of operators take no room of their own, because the
chain is read in a loop.
-/

namespace LetLang

/-! ## The nesting of trees -/

mutual

/-- How deeply an expression is nested.  A left operand stands at the level of its
operator, and every other part is one level deeper than what it stands in. -/
def Expr.nesting : Expr → Nat
  | .name _ | .int _ | .bool _ => 1
  | .unary _ e => 1 + e.nesting
  | .binary _ l r => max l.nesting (1 + r.nesting)
  | .ifThen c t => max (1 + c.nesting) (1 + (1 + Stmt.nestingOfAll t))
  | .ifElse c t e =>
      max (1 + c.nesting) (max (1 + (1 + Stmt.nestingOfAll t)) (1 + (1 + Stmt.nestingOfAll e)))

/-- How deeply a statement is nested. -/
def Stmt.nesting : Stmt → Nat
  | .bind _ e | .ret e | .expr e => e.nesting
  | .block b => 1 + Stmt.nestingOfAll b

/-- How deeply the statements of a sequence are nested. -/
def Stmt.nestingOfAll : List Stmt → Nat
  | [] => 0
  | s :: b => max s.nesting (Stmt.nestingOfAll b)

end

theorem Stmt.nesting_le_nestingOfAll {s : Stmt} {b : List Stmt} (hs : s ∈ b) :
    s.nesting ≤ Stmt.nestingOfAll b := by
  induction b with
  | nil => exact absurd hs List.not_mem_nil
  | cons t b ih =>
      rw [nestingOfAll]
      rcases List.mem_cons.mp hs with rfl | hs
      · exact Nat.le_max_left _ _
      · exact (ih hs).trans (Nat.le_max_right _ _)

/-- A well-formed expression that is nested in at most `room` levels. -/
structure Expr.Fits (room : Nat) (e : Expr) : Prop where
  isWellFormed : e.isWellFormed = true
  nesting_le : e.nesting ≤ room

/-- A well-formed statement that is nested in at most `room` levels. -/
structure Stmt.Fits (room : Nat) (s : Stmt) : Prop where
  isWellFormed : s.isWellFormed = true
  nesting_le : s.nesting ≤ room

/-- Well-formed statements that are nested in at most `room` levels each. -/
structure Stmt.AllFit (room : Nat) (b : List Stmt) : Prop where
  areWellFormed : Stmt.areWellFormed b = true
  nesting_le : Stmt.nestingOfAll b ≤ room

/-- A block that takes at most `room` levels, its own one included. -/
structure Block.Fits (room : Nat) (b : Block) : Prop where
  areWellFormed : Stmt.areWellFormed b = true
  nesting_le : 1 + Stmt.nestingOfAll b ≤ room

namespace Expr.Fits

variable {room : Nat} {e l r c : Expr} {t u : Block}

theorem of_le {room' : Nat} (h : e.Fits room) (hroom : room ≤ room') : e.Fits room' :=
  ⟨h.isWellFormed, h.nesting_le.trans hroom⟩

theorem name {x : String} (hx : isName x = true) : (Expr.name x).Fits (room + 1) :=
  ⟨hx, Nat.le_add_left 1 room⟩

theorem int {n : Integer} (hn : 0 ≤ n.toInt) : (Expr.int n).Fits (room + 1) :=
  ⟨decide_eq_true hn, Nat.le_add_left 1 room⟩

theorem bool (b : Bool) : (Expr.bool b).Fits (room + 1) :=
  ⟨rfl, Nat.le_add_left 1 room⟩

theorem unary (op : UnaryOp) (he : e.Fits room) : (Expr.unary op e).Fits (room + 1) := by
  refine ⟨he.isWellFormed, ?_⟩
  have hnesting := he.nesting_le
  rw [Expr.nesting]
  omega

/-- A left operand may take all the room that the whole expression has. -/
theorem binary (op : BinaryOp) (hl : l.Fits (room + 1)) (hr : r.Fits room) :
    (Expr.binary op l r).Fits (room + 1) := by
  constructor
  · rw [Expr.isWellFormed, hl.isWellFormed, hr.isWellFormed]
    rfl
  · have hleft := hl.nesting_le
    have hright := hr.nesting_le
    rw [Expr.nesting]
    omega

theorem ifThen (hc : c.Fits room) (ht : Block.Fits room t) :
    (Expr.ifThen c t).Fits (room + 1) := by
  constructor
  · rw [Expr.isWellFormed, hc.isWellFormed, ht.areWellFormed]
    rfl
  · have hcondition := hc.nesting_le
    have hconsequence := ht.nesting_le
    rw [Expr.nesting]
    omega

theorem ifElse (hc : c.Fits room) (ht : Block.Fits room t) (hu : Block.Fits room u) :
    (Expr.ifElse c t u).Fits (room + 1) := by
  constructor
  · rw [Expr.isWellFormed, hc.isWellFormed, ht.areWellFormed, hu.areWellFormed]
    rfl
  · have hcondition := hc.nesting_le
    have hconsequence := ht.nesting_le
    have halternative := hu.nesting_le
    rw [Expr.nesting]
    omega

end Expr.Fits

theorem Stmt.Fits.bind
    {room : Nat} {x : String} {e : Expr} (hx : isName x = true) (he : e.Fits room) :
    (Stmt.bind x e).Fits room := by
  refine ⟨?_, he.nesting_le⟩
  rw [Stmt.isWellFormed, hx, he.isWellFormed]
  rfl

theorem Stmt.AllFit.nil (room : Nat) : Stmt.AllFit room [] :=
  ⟨rfl, Nat.zero_le room⟩

theorem Stmt.AllFit.cons
    {room : Nat} {s : Stmt} {b : List Stmt} (hs : s.Fits room) (hb : Stmt.AllFit room b) :
    Stmt.AllFit room (s :: b) := by
  constructor
  · rw [Stmt.areWellFormed, hs.isWellFormed, hb.areWellFormed]
    rfl
  · exact Nat.max_le.mpr ⟨hs.nesting_le, hb.nesting_le⟩

/-! ## The tokens of a text -/

/-- Every token ahead is spelled as its kind demands. -/
def TokenStream.IsSpelled (s : TokenStream) : Prop :=
  ∀ t ∈ s.tokens, Spells t.kind t.literal.toList

theorem TokenStream.isSpelled_ofSource (source : String) :
    (TokenStream.ofSource source).IsSpelled :=
  fun _ ht => (segmented_scan [] source.toList).spells_of_mem ht

theorem TokenStream.IsSpelled.spells_head
    {s : TokenStream} (hs : s.IsSpelled) (hkind : s.head.kind ≠ .eof) :
    Spells s.head.kind s.head.literal.toList := by
  obtain ⟨tokens, ending⟩ := s
  cases tokens with
  | nil => exact absurd rfl hkind
  | cons t ts => exact hs t List.mem_cons_self

theorem Spells.isName {x : String} (h : Spells .ident x.toList) : isName x = true := by
  have hkeyword := h.mem_keywords_iff.not.mp (by decide)
  rw [String.ofList_toList] at hkeyword
  exact isName_iff.mpr ⟨h.isWord (Or.inl rfl), hkeyword⟩

theorem Integer.nonneg_of_parse?_eq_some
    {text : String} {n : Integer} (hsign : text.toList.head? ≠ some '-')
    (h : parse? text = some n) : 0 ≤ n.toInt := by
  unfold parse? at h
  split at h
  · next hdigits => exact absurd (by rw [hdigits]; rfl) hsign
  all_goals
    obtain ⟨m, -, hm⟩ := Option.bind_eq_some_iff.mp h
    rw [ofInt?_eq_some_iff.mp hm]
    exact Int.natCast_nonneg m

/-- The literal of a number has no sign. -/
theorem Spells.nonneg_of_parse?_eq_some
    {text : String} {n : Integer} (h : Spells .int text.toList)
    (hn : Integer.parse? text = some n) : 0 ≤ n.toInt := by
  refine Integer.nonneg_of_parse?_eq_some ?_ hn
  intro hhead
  have hdigit := h.isDigit_of_mem rfl '-' (List.mem_of_head? hhead)
  exact absurd hdigit (by decide)

/-! ## What parsers yield -/

namespace Parser

variable {α β : Type} {Q : α → Prop} {R : β → Prop}

/-- From tokens that are spelled properly, `p` yields nothing but values that
satisfy `Q`, whatever errors it finds. -/
def Yields (Q : α → Prop) (p : Parser α) : Prop :=
  ∀ s, s.IsSpelled → (p s).rest.IsSpelled ∧ ∀ a, (p s).value = some a → Q a

theorem Advances.yields
    {p : Parser α} (hp : Advances p)
    (h : ∀ s, s.IsSpelled → ∀ a, (p s).value = some a → Q a) : Yields Q p := by
  intro s hs
  exact ⟨fun t ht => hs t ((hp s).2.subset ht), h s hs⟩

theorem yields_pure {a : α} (ha : Q a) : Yields Q (pure a) := by
  intro s hs
  refine ⟨hs, ?_⟩
  intro b hb
  obtain rfl : a = b := Option.some.inj hb
  exact ha

theorem yields_refuse : Yields Q refuse :=
  consumes_refuse.advances.yields fun _ _ _ h => absurd h (by simp [refuse])

theorem yields_fail
    {cause : SyntaxError.Cause} {position : Position} (hcause : cause.isLocal = true) :
    Yields Q (fail cause position) :=
  (compositional_advances.fail cause position hcause).yields
    fun _ _ _ h => absurd h (by simp [fail])

/-- The next token has the spelling of its kind, unless the input has ended. -/
theorem yields_next : Yields (fun t => t.kind ≠ .eof → Spells t.kind t.literal.toList) next := by
  refine consumes_next.advances.yields fun s hs t ht => ?_
  obtain rfl : s.head = t := Option.some.inj ht
  exact hs.spells_head

theorem yields_expect {kind : TokenKind} (hkind : kind ≠ .eof) :
    Yields (fun t => Spells kind t.literal.toList) (expect kind) := by
  refine (compositional_advances.expect kind).yields fun s hs t ht => ?_
  by_cases hhead : s.head.kind = kind
  · have hrequire : (require kind s).value = some () := by simp [require, hhead]
    rw [expect, bind_apply_of_eq_some hrequire] at ht
    obtain rfl : s.head = t := by simpa [require, next, hhead] using ht
    rw [← hhead]
    exact hs.spells_head (hhead ▸ hkind)
  · have hrequire : (require kind s).value = none := by simp [require, hhead]
    rw [expect, bind_apply_of_eq_none hrequire] at ht
    cases ht

namespace Yields

theorem bind
    {p : Parser α} {f : α → Parser β} (hp : Yields Q p) (hf : ∀ a, Q a → Yields R (f a)) :
    Yields R (p >>= f) := by
  intro s hs
  obtain ⟨hrest, hvalue⟩ := hp s hs
  cases h : (p s).value with
  | none =>
      rw [bind_apply_of_eq_none h]
      exact ⟨hrest, nofun⟩
  | some a =>
      rw [bind_apply_of_eq_some h]
      exact hf a (hvalue a h) _ hrest

theorem after
    {p : Parser α} {f : α → Parser β} (hp : Advances p) (hf : ∀ a, Yields R (f a)) :
    Yields R (p >>= f) :=
  (hp.yields (Q := fun _ => True) fun _ _ _ _ => trivial).bind fun a _ => hf a

theorem map
    {p : Parser α} {f : α → β} (hp : Yields Q p) (hf : ∀ a, Q a → R (f a)) :
    Yields R (p >>= fun a => Pure.pure (f a)) :=
  hp.bind fun a ha => yields_pure (hf a ha)

theorem orSkip {p : Parser α} (hp : Yields Q p) :
    Yields (fun o => ∀ a ∈ o, Q a) (Parser.orSkip p) := by
  intro s hs
  obtain ⟨hrest, hvalue⟩ := hp s hs
  refine ⟨hrest, ?_⟩
  intro o ho a ha
  obtain rfl : (p s).value = o := Option.some.inj ho
  exact hvalue a ha

theorem bounded {p : Nat → Parser α} (hp : ∀ repeats, Yields Q (p repeats)) :
    Yields Q (Parser.bounded p) :=
  fun s hs => hp s.tokens.length s hs

theorem chain
    {room : Nat} {operand : Precedence → Parser Expr}
    (hoperand : ∀ weakest, Yields (Expr.Fits room) (operand weakest))
    (weakest : Precedence) (repeats : Nat) {left : Expr} (hleft : left.Fits (room + 1)) :
    Yields (Expr.Fits (room + 1)) (Parser.chain operand weakest repeats left) := by
  induction repeats generalizing left with
  | zero => exact yields_pure hleft
  | succ repeats ih =>
      apply after compositional_advances.peek
      intro kind
      split
      · exact yields_pure hleft
      · next op _ =>
        split
        · apply after compositional_advances.next
          intro _
          apply (hoperand op.precedence).bind
          intro right hright
          exact ih (hleft.binary op hright)
        · exact yields_pure hleft

section Phrases

variable {room : Nat} {expression : Precedence → Parser Expr} {block : Parser Block}
  (hexpression : ∀ weakest, Yields (Expr.Fits room) (expression weakest))
  (hblock : Yields (Block.Fits room) block)
include hexpression hblock

theorem conditional : Yields (Expr.Fits (room + 1)) (Parser.conditional expression block) := by
  apply after (compositional_advances.expect _)
  intro _
  apply (hexpression _).bind
  intro condition hcondition
  apply after (compositional_advances.expect _)
  intro _
  apply after (compositional_advances.require _)
  intro _
  apply hblock.bind
  intro consequence hconsequence
  apply after compositional_advances.peek
  intro kind
  split
  · apply after compositional_advances.next
    intro _
    apply after (compositional_advances.require _)
    intro _
    exact hblock.map fun alternative halternative => hcondition.ifElse hconsequence halternative
  · exact yields_pure (hcondition.ifThen hconsequence)

theorem leading : Yields (Expr.Fits (room + 1)) (Parser.leading expression block) := by
  apply yields_next.bind
  intro t ht
  split
  · next hkind =>
    rw [hkind] at ht
    exact yields_pure (.name (ht (by decide)).isName)
  · next hkind =>
    rw [hkind] at ht
    split
    · next n hn => exact yields_pure (.int ((ht (by decide)).nonneg_of_parse?_eq_some hn))
    · exact yields_fail rfl
  · exact yields_pure (.bool true)
  · exact yields_pure (.bool false)
  · exact (hexpression _).map fun _ he => he.unary .not
  · exact (hexpression _).map fun _ he => he.unary .neg
  · -- A group is nested less deeply than it was read, since no node stands for it.
    apply (hexpression _).bind
    intro inner hinner
    apply after (compositional_advances.expect _)
    intro _
    exact yields_pure (hinner.of_le (Nat.le_succ room))
  · exact conditional hexpression hblock
  · exact yields_fail rfl

theorem statement : Yields (Stmt.Fits room) (Parser.statement expression block) := by
  have hvalue {f : Expr → Stmt} (hf : ∀ e : Expr, e.Fits room → (f e).Fits room) :
      Yields (Stmt.Fits room) (do
        let value ← expression .lowest
        skipIf .semicolon
        Pure.pure (f value)) := by
    apply (hexpression _).bind
    intro e he
    exact after (compositional_advances.skipIf _) fun _ => yields_pure (hf e he)
  apply after compositional_advances.peek
  intro kind
  split
  · apply after compositional_advances.next
    intro _
    apply (yields_expect (by decide)).bind
    intro name hname
    apply after (compositional_advances.expect _)
    intro _
    exact hvalue fun e he => .bind hname.isName he
  · apply after compositional_advances.next
    intro _
    exact hvalue fun e he => ⟨he.isWellFormed, he.nesting_le⟩
  · exact hblock.map fun b hb => ⟨hb.areWellFormed, hb.nesting_le⟩
  · exact hvalue fun e he => ⟨he.isWellFormed, he.nesting_le⟩

end Phrases

theorem statements
    {room : Nat} {statement : Parser Stmt} (hstatement : Yields (Stmt.Fits room) statement)
    (stops : TokenKind → Bool) (repeats : Nat) :
    Yields (Stmt.AllFit room) (Parser.statements statement stops repeats) := by
  induction repeats with
  | zero => exact yields_pure (.nil room)
  | succ repeats ih =>
      apply after compositional_advances.peek
      intro kind
      split
      · exact yields_pure (.nil room)
      · apply hstatement.orSkip.bind
        intro first hfirst
        apply ih.map
        intro others hothers
        cases first with
        | none => exact hothers
        | some s => exact .cons (hfirst s rfl) hothers

/-- The induction is on the room: each parser is built from those that have one
level less. -/
theorem expression_and_block (room : Nat) :
    (∀ weakest, Yields (Expr.Fits room) (expression room weakest)) ∧
      Yields (Block.Fits room) (block room) := by
  induction room with
  | zero => exact ⟨fun _ => yields_refuse, yields_refuse⟩
  | succ room ih =>
      obtain ⟨hexpression, hblock⟩ := ih
      constructor
      · intro weakest
        apply after (compositional_advances.visit _)
        intro _
        apply (leading hexpression hblock).bind
        intro left hleft
        exact bounded fun repeats => chain hexpression weakest repeats hleft
      · apply after compositional_advances.next
        intro _
        apply (bounded (statements (statement hexpression hblock) endsBlock)).bind
        intro body hbody
        have hfits : Block.Fits (room + 1) body := by
          have hnesting := hbody.nesting_le
          exact ⟨hbody.areWellFormed, by omega⟩
        apply after compositional_advances.next
        intro closing
        split
        · exact after (compositional_advances.report _ _ rfl) fun _ => yields_pure hfits
        · exact yields_pure hfits

theorem program (room : Nat) :
    Yields (fun p => Stmt.AllFit room p.statements) (Parser.program room) := by
  obtain ⟨hexpression, hblock⟩ := expression_and_block room
  have hbody := bounded (statements (statement hexpression hblock) endsProgram)
  exact hbody.map fun body hfits => hfits

end Yields

end Parser

/-- Every text is read as some program, with or without errors.  All names in it are
words that are not reserved, its literals are integers from zero on, and no statement
of it is nested in more than 256 levels. -/
theorem read_ofSource_isWellFormed_and_nesting_le (source : String) :
    ∃ p, (Program.read (.ofSource source)).value = some p ∧ p.isWellFormed = true ∧
      ∀ s ∈ p.statements, s.nesting ≤ 256 := by
  obtain ⟨statements, hvalue⟩ := Program.exists_value_read (.ofSource source)
  have hspelled := TokenStream.isSpelled_ofSource source
  have hfit : Stmt.AllFit Parser.maxNesting statements :=
    (Parser.Yields.program Parser.maxNesting _ hspelled).2 _ hvalue
  refine ⟨⟨statements⟩, hvalue, hfit.areWellFormed, ?_⟩
  intro s hs
  exact (Stmt.nesting_le_nestingOfAll hs).trans hfit.nesting_le

end LetLang
