import LetLang.Proofs.Parser.Relational

/-!
# Properties that every parser inherits

A property that the single steps of the parsers have and that composition and
loops keep is a property of every parser.  It is a relation between a parser and
itself, so the induction is the one that has been carried out for relations.
-/

namespace LetLang
namespace Parser

/-- The single steps have the property `P`, and composition keeps it. -/
structure Compositional (P : {α : Type} → Parser α → Prop) : Prop where
  pure : ∀ {α : Type} (a : α), P (Pure.pure a : Parser α)
  peek : P peek
  next : P next
  fail : ∀ {α : Type} (cause : SyntaxError.Cause) (position : Position),
    cause.isLocal = true → P (fail cause position : Parser α)
  report : ∀ (cause : SyntaxError.Cause) (position : Position),
    cause.isLocal = true → P (report cause position)
  require : ∀ kind : TokenKind, P (require kind)
  skipIf : ∀ kind : TokenKind, P (skipIf kind)
  visit : ∀ weakest : Precedence, P (visit weakest)
  refuse : ∀ {α : Type}, P (refuse : Parser α)
  bind : ∀ {α β : Type} {p : Parser α} {f : α → Parser β},
    P p → (∀ a, P (f a)) → P (p >>= f)
  orSkip : ∀ {α : Type} {p : Parser α}, P p → P (orSkip p)

namespace Compositional

variable {P : {α : Type} → Parser α → Prop} (hP : Compositional P)
include hP

theorem bind_of_eq
    {α β : Type} {p q : Parser α} {f g : α → Parser β}
    (hpq : p = q ∧ P p) (hfg : ∀ a, f a = g a ∧ P (f a)) :
    (p >>= f) = (q >>= g) ∧ P (p >>= f) := by
  have heq : f = g := funext fun a => (hfg a).1
  exact ⟨by rw [hpq.1, heq], hP.bind hpq.2 fun a => (hfg a).2⟩

/-- A property relates every parser that has it to itself. -/
theorem relational : Relational Eq (fun p q => p = q ∧ P p) where
  kind htt' := by rw [htt']
  literal htt' := by rw [htt']
  pure a := ⟨rfl, hP.pure a⟩
  peek := ⟨rfl, hP.peek⟩
  next {α f g} hfg := by
    have heq : f = g := funext fun t => (hfg t t rfl).1
    exact ⟨by rw [heq], hP.bind hP.next fun t => (hfg t t rfl).2⟩
  behind hpq := hpq
  fail hcause htt' := ⟨by rw [htt'], hP.fail _ _ hcause.isLocal⟩
  report hcause htt' := ⟨by rw [htt'], hP.report _ _ hcause.isLocal⟩
  bindBehind := hP.bind_of_eq
  require kind := ⟨rfl, hP.require kind⟩
  skipIf kind := ⟨rfl, hP.skipIf kind⟩
  visit weakest := ⟨rfl, hP.visit weakest⟩
  refuse := ⟨rfl, hP.refuse⟩
  bind := hP.bind_of_eq
  orSkip hpq := ⟨by rw [hpq.1], hP.orSkip hpq.2⟩

theorem expect (kind : TokenKind) : P (Parser.expect kind) :=
  hP.bind (hP.require kind) fun _ => hP.next

theorem chain
    {operand : Precedence → Parser Expr} (hoperand : ∀ weakest, P (operand weakest))
    (weakest : Precedence) (repeats : Nat) (left : Expr) :
    P (Parser.chain operand weakest repeats left) :=
  (hP.relational.chain (fun weakest => ⟨rfl, hoperand weakest⟩) weakest repeats left).2

theorem exists_leading_eq_next_bind
    {expression : Precedence → Parser Expr} {block : Parser Block}
    (hexpression : ∀ weakest, P (expression weakest)) (hblock : P block) :
    ∃ f : Token → Parser Expr,
      Parser.leading expression block = (Parser.next >>= f) ∧ ∀ token, P (f token) := by
  obtain ⟨f, _, hf, -, hPf⟩ := hP.relational.exists_leading_eq_next_bind
    (fun weakest => ⟨rfl, hexpression weakest⟩) ⟨rfl, hblock⟩
  exact ⟨f, hf, fun token => (hPf token token rfl).2⟩

theorem statements
    {statement : Parser Stmt} (hstatement : P statement)
    (stops : TokenKind → Bool) (repeats : Nat) :
    P (Parser.statements statement stops repeats) :=
  (hP.relational.statements ⟨rfl, hstatement⟩ stops repeats).2

end Compositional

/-- The loops keep the property, too. -/
structure Inherited (P : {α : Type} → Parser α → Prop) : Prop extends Compositional P where
  operators : ∀ (room : Nat) (weakest : Precedence) (left : Expr),
    (∀ weakest, P (expression room weakest)) → P (operators (expression room) weakest left)
  sequence : ∀ (room : Nat) (stops : TokenKind → Bool), stops .eof = true →
    P (statement (expression room) (block room)) →
      P (sequence (statement (expression room) (block room)) stops)

/-- It suffices that repetition keeps the property for every bound. -/
theorem Compositional.inherited
    {P : {α : Type} → Parser α → Prop} (hP : Compositional P)
    (hbounded : ∀ {α : Type} {p : Nat → Parser α},
      (∀ repeats, P (p repeats)) → P (bounded p)) :
    Inherited P where
  toCompositional := hP
  operators _ weakest left hexpression :=
    hbounded fun repeats => hP.chain hexpression weakest repeats left
  sequence _ stops _ hstatement :=
    hbounded fun repeats => hP.statements hstatement stops repeats

namespace Inherited

variable {P : {α : Type} → Parser α → Prop} (hP : Inherited P)
include hP

theorem respected : Respected Eq (fun p q => p = q ∧ P p) where
  toRelational := hP.relational
  operators room weakest left hexpression :=
    ⟨rfl, hP.operators room weakest left fun weakest => (hexpression weakest).2⟩
  sequence room stops heof hstatement := ⟨rfl, hP.sequence room stops heof hstatement.2⟩

theorem expression (room : Nat) (weakest : Precedence) :
    P (Parser.expression room weakest) :=
  (hP.respected.expression room weakest).2

theorem block (room : Nat) : P (Parser.block room) :=
  (hP.respected.block room).2

theorem statementWithin (room : Nat) :
    P (Parser.statement (Parser.expression room) (Parser.block room)) :=
  (hP.respected.statementWithin room).2

theorem program (room : Nat) : P (Parser.program room) :=
  (hP.respected.program room).2

end Inherited

end Parser
end LetLang
