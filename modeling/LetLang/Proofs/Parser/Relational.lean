import LetLang.Program.Parser

/-!
# Relations that every parser respects

A parser of the language is put together from a few single steps by sequencing
and by reading on behind a failure, and there are two loops, one over operators
and one over statements.  Suppose that a relation between parsers holds of the
single steps and that composition and loops keep it.  Then it holds between every
parser and itself, and this module carries out the induction for all of them at
once.

Tokens may be replaced on the way by others that correspond to them.  A parser
looks at the kind and at the text of a token, and it hands the position on to
the errors it finds, so corresponding tokens agree in kind and text only.

An error that is reported at a token comes right behind the step that takes this
token.  Where that matters, the parsers that come right behind corresponding
tokens have a relation of their own, which is then weaker.
-/

namespace LetLang

/-- Whether a cause is about a single token, and not about the nesting. -/
def SyntaxError.Cause.isLocal : SyntaxError.Cause → Bool
  | unexpected _ _ | noExpression _ | badInteger _ => true
  | nestedTooDeeply | stated _ => false

/-- The cause says what is wrong with this token: its kind, or its text if that is
the text of a number. -/
def SyntaxError.Cause.IsAbout (t : Token) : SyntaxError.Cause → Prop
  | unexpected _ got => got = t.kind
  | noExpression kind => kind = t.kind
  | badInteger literal => t.kind = .int ∧ literal = t.literal
  | nestedTooDeeply | stated _ => False

theorem SyntaxError.Cause.IsAbout.isLocal
    {t : Token} {cause : SyntaxError.Cause} (h : cause.IsAbout t) : cause.isLocal = true := by
  cases cause with
  | nestedTooDeeply => exact h.elim
  | stated message => exact h.elim
  | _ => rfl

namespace Parser

theorem bind_assoc
    {α β γ : Type} (p : Parser α) (f : α → Parser β) (g : β → Parser γ) :
    (p >>= f >>= g) = (p >>= fun a => f a >>= g) := by
  funext s
  cases hp : (p s).value with
  | none =>
      have hpf := bind_apply_of_eq_none (f := f) hp
      rw [bind_apply_of_eq_none (by rw [hpf]), hpf, bind_apply_of_eq_none hp]
  | some a =>
      have hpf := bind_apply_of_eq_some (f := f) hp
      rw [bind_apply_of_eq_some (f := fun a => f a >>= g) hp]
      cases hf : (f a (p s).rest).value with
      | none =>
          rw [bind_apply_of_eq_none (by rw [hpf, hf]), hpf, bind_apply_of_eq_none hf]
      | some b =>
          rw [bind_apply_of_eq_some (by rw [hpf, hf]), hpf, bind_apply_of_eq_some hf]
          simp [List.append_assoc]

/-- Single steps that start from corresponding tokens are related by `P`, and
composition keeps the relation.  Right behind corresponding tokens `Behind` is
enough. -/
structure Relational
    (V : Token → Token → Prop) (P : {α : Type} → Parser α → Parser α → Prop)
    (Behind : {α : Type} → Token → Token → Parser α → Parser α → Prop := fun _ _ => P) :
    Prop where
  kind : ∀ {t t' : Token}, V t t' → t.kind = t'.kind
  literal : ∀ {t t' : Token}, V t t' → t.literal = t'.literal
  pure : ∀ {α : Type} (a : α), P (Pure.pure a) (Pure.pure a)
  peek : P peek peek
  next : ∀ {α : Type} {f g : Token → Parser α},
    (∀ t t', V t t' → Behind t t' (f t) (g t')) → P (next >>= f) (next >>= g)
  behind : ∀ {α : Type} {p q : Parser α} {t t' : Token}, P p q → Behind t t' p q
  fail : ∀ {α : Type} {cause : SyntaxError.Cause} {t t' : Token},
    cause.IsAbout t → V t t' →
      Behind t t' (fail cause t.position : Parser α) (fail cause t'.position)
  report : ∀ {cause : SyntaxError.Cause} {t t' : Token},
    cause.IsAbout t → V t t' →
      Behind t t' (report cause t.position) (report cause t'.position)
  bindBehind : ∀ {α β : Type} {p q : Parser α} {f g : α → Parser β} {t t' : Token},
    Behind t t' p q → (∀ a, P (f a) (g a)) → Behind t t' (p >>= f) (q >>= g)
  require : ∀ kind : TokenKind, P (require kind) (require kind)
  skipIf : ∀ kind : TokenKind, P (skipIf kind) (skipIf kind)
  visit : ∀ weakest : Precedence, P (visit weakest) (visit weakest)
  refuse : ∀ {α : Type}, P (refuse : Parser α) refuse
  bind : ∀ {α β : Type} {p q : Parser α} {f g : α → Parser β},
    P p q → (∀ a, P (f a) (g a)) → P (p >>= f) (q >>= g)
  orSkip : ∀ {α : Type} {p q : Parser α}, P p q → P (orSkip p) (orSkip q)

namespace Relational

variable {V : Token → Token → Prop} {P : {α : Type} → Parser α → Parser α → Prop}
  {Behind : {α : Type} → Token → Token → Parser α → Parser α → Prop}
  (hP : Relational V P Behind)
include hP

theorem expect_bind
    {α : Type} {f g : Token → Parser α} (kind : TokenKind)
    (hfg : ∀ t t', V t t' → P (f t) (g t')) :
    P (Parser.expect kind >>= f) (Parser.expect kind >>= g) := by
  simp only [Parser.expect, bind_assoc]
  exact hP.bind (hP.require kind) fun _ => hP.next fun t t' htt' => hP.behind (hfg t t' htt')

theorem skip
    {α : Type} {p q : Parser α} (hpq : P p q) :
    P (Parser.next >>= fun _ => p) (Parser.next >>= fun _ => q) :=
  hP.next fun _ _ _ => hP.behind hpq

theorem expect_skip
    {α : Type} {p q : Parser α} (kind : TokenKind) (hpq : P p q) :
    P (Parser.expect kind >>= fun _ => p) (Parser.expect kind >>= fun _ => q) :=
  hP.expect_bind kind fun _ _ _ => hpq

theorem chain
    {operand operand' : Precedence → Parser Expr}
    (hoperand : ∀ weakest, P (operand weakest) (operand' weakest))
    (weakest : Precedence) (repeats : Nat) (left : Expr) :
    P (Parser.chain operand weakest repeats left)
      (Parser.chain operand' weakest repeats left) := by
  induction repeats generalizing left with
  | zero => exact hP.pure left
  | succ repeats ih =>
      refine hP.bind hP.peek fun kind => ?_
      split
      · exact hP.pure left
      · split
        · exact hP.skip (hP.bind (hoperand _) fun _ => ih _)
        · exact hP.pure left

section Phrases

variable {expression expression' : Precedence → Parser Expr} {block block' : Parser Block}
  (hexpression : ∀ weakest, P (expression weakest) (expression' weakest))
  (hblock : P block block')
include hexpression hblock

theorem conditional :
    P (Parser.conditional expression block) (Parser.conditional expression' block') := by
  refine hP.expect_skip _ (hP.bind (hexpression _) fun _ => hP.expect_skip _ ?_)
  refine hP.bind (hP.require _) fun _ => hP.bind hblock fun _ => hP.bind hP.peek fun kind => ?_
  split
  · exact hP.skip (hP.bind (hP.require _) fun _ => hP.bind hblock fun _ => hP.pure _)
  · exact hP.pure _

theorem exists_leading_eq_next_bind :
    ∃ f g : Token → Parser Expr,
      Parser.leading expression block = (Parser.next >>= f) ∧
      Parser.leading expression' block' = (Parser.next >>= g) ∧
      ∀ t t', V t t' → Behind t t' (f t) (g t') := by
  refine ⟨_, _, rfl, rfl, fun t t' htt' => ?_⟩
  simp only [← hP.kind htt', ← hP.literal htt']
  split
  · exact hP.behind (hP.pure _)
  · next hkind =>
    split
    · exact hP.behind (hP.pure _)
    · exact hP.fail ⟨hkind, rfl⟩ htt'
  · exact hP.behind (hP.pure _)
  · exact hP.behind (hP.pure _)
  · exact hP.behind (hP.bind (hexpression _) fun _ => hP.pure _)
  · exact hP.behind (hP.bind (hexpression _) fun _ => hP.pure _)
  · exact hP.behind (hP.bind (hexpression _) fun _ => hP.expect_skip _ (hP.pure _))
  · exact hP.behind (hP.conditional hexpression hblock)
  · exact hP.fail rfl htt'

theorem leading :
    P (Parser.leading expression block) (Parser.leading expression' block') := by
  obtain ⟨f, g, hf, hg, hfg⟩ := hP.exists_leading_eq_next_bind hexpression hblock
  rw [hf, hg]
  exact hP.next hfg

theorem statement :
    P (Parser.statement expression block) (Parser.statement expression' block') := by
  have hvalue (f : Expr → Stmt) :
      P (do
          let value ← expression .lowest
          Parser.skipIf .semicolon
          Pure.pure (f value))
        (do
          let value ← expression' .lowest
          Parser.skipIf .semicolon
          Pure.pure (f value)) :=
    hP.bind (hexpression _) fun _ => hP.bind (hP.skipIf _) fun _ => hP.pure _
  refine hP.bind hP.peek fun kind => ?_
  split
  · refine hP.skip (hP.expect_bind _ fun name name' hname => hP.expect_skip _ ?_)
    rw [hP.literal hname]
    exact hvalue (.bind name'.literal)
  · exact hP.skip (hvalue .ret)
  · exact hP.bind hblock fun _ => hP.pure _
  · exact hvalue .expr

end Phrases

theorem statements
    {statement statement' : Parser Stmt} (hstatement : P statement statement')
    (stops : TokenKind → Bool) (repeats : Nat) :
    P (Parser.statements statement stops repeats)
      (Parser.statements statement' stops repeats) := by
  induction repeats with
  | zero => exact hP.pure _
  | succ repeats ih =>
      refine hP.bind hP.peek fun kind => ?_
      split
      · exact hP.pure _
      · exact hP.bind (hP.orSkip hstatement) fun _ => hP.bind ih fun _ => hP.pure _

end Relational

/-- The infix operators behind a left operand, however many there are. -/
def operators (operand : Precedence → Parser Expr) (weakest : Precedence)
    (left : Expr) : Parser Expr :=
  bounded fun repeats => chain operand weakest repeats left

/-- Statements up to a token at which the sequence stops, however many there
are. -/
def sequence (statement : Parser Stmt) (stops : TokenKind → Bool) : Parser (List Stmt) :=
  bounded (statements statement stops)

/-- The loops keep the relation, too. -/
structure Respected
    (V : Token → Token → Prop) (P : {α : Type} → Parser α → Parser α → Prop)
    (Behind : {α : Type} → Token → Token → Parser α → Parser α → Prop := fun _ _ => P) :
    Prop extends Relational V P Behind where
  operators : ∀ (room : Nat) (weakest : Precedence) (left : Expr),
    (∀ weakest, P (expression room weakest) (expression room weakest)) →
      P (operators (expression room) weakest left) (operators (expression room) weakest left)
  sequence : ∀ (room : Nat) (stops : TokenKind → Bool), stops .eof = true →
    P (statement (expression room) (block room)) (statement (expression room) (block room)) →
      P (sequence (statement (expression room) (block room)) stops)
        (sequence (statement (expression room) (block room)) stops)

/-- It suffices that repetition keeps the relation for every bound. -/
theorem Relational.respected
    {V : Token → Token → Prop} {P : {α : Type} → Parser α → Parser α → Prop}
    {Behind : {α : Type} → Token → Token → Parser α → Parser α → Prop}
    (hP : Relational V P Behind)
    (hbounded : ∀ {α : Type} {p q : Nat → Parser α},
      (∀ repeats, P (p repeats) (q repeats)) → P (bounded p) (bounded q)) :
    Respected V P Behind where
  toRelational := hP
  operators _ weakest left hexpression :=
    hbounded fun repeats => hP.chain hexpression weakest repeats left
  sequence _ stops _ hstatement :=
    hbounded fun repeats => hP.statements hstatement stops repeats

namespace Respected

variable {V : Token → Token → Prop} {P : {α : Type} → Parser α → Parser α → Prop}
  {Behind : {α : Type} → Token → Token → Parser α → Parser α → Prop}
  (hP : Respected V P Behind)
include hP

theorem expression_and_block (room : Nat) :
    (∀ weakest, P (Parser.expression room weakest) (Parser.expression room weakest)) ∧
      P (Parser.block room) (Parser.block room) := by
  induction room with
  | zero => exact ⟨fun _ => hP.refuse, hP.refuse⟩
  | succ room ih =>
      obtain ⟨hexpression, hblock⟩ := ih
      constructor
      · intro weakest
        exact hP.bind (hP.visit _) fun _ =>
          hP.bind (hP.leading hexpression hblock) fun left =>
          hP.operators room weakest left hexpression
      · have hbody := hP.sequence room endsBlock rfl (hP.statement hexpression hblock)
        refine hP.skip (hP.bind hbody fun body => ?_)
        refine hP.next fun closing closing' hclosing => ?_
        rw [hP.kind hclosing]
        split
        · exact hP.bindBehind (hP.report (hP.kind hclosing).symm hclosing) fun _ => hP.pure _
        · exact hP.behind (hP.pure _)

theorem expression (room : Nat) (weakest : Precedence) :
    P (Parser.expression room weakest) (Parser.expression room weakest) :=
  (hP.expression_and_block room).1 weakest

theorem block (room : Nat) : P (Parser.block room) (Parser.block room) :=
  (hP.expression_and_block room).2

theorem statementWithin (room : Nat) :
    P (Parser.statement (Parser.expression room) (Parser.block room))
      (Parser.statement (Parser.expression room) (Parser.block room)) :=
  hP.statement (hP.expression room) (hP.block room)

theorem program (room : Nat) : P (Parser.program room) (Parser.program room) :=
  hP.bind (hP.sequence room endsProgram rfl (hP.statementWithin room)) fun _ => hP.pure _

end Respected

end Parser
end LetLang
