import LetLang.Proofs.Grammar.Basic
import LetLang.Proofs.Parser.Lookahead
import LetLang.Proofs.Parser.Outcome

/-!
# Reading by tables

What a token means in an expression can be kept in tables: which function starts
an expression at a token, which tokens have a function that continues one, how
tightly each token binds, and which operator it stands for in front of an operand
or between two.  A reader with such tables looks a token up in one of them because
another one sent it there, and it needs an answer for the case that the second
table has no entry.  Such an answer would be given without an error.

The tables leave no gap of this kind.  Whatever is answered in a gap, the tables
read like the parsers, which have no gaps.  So a call that fails records an error,
unless the nesting limit was hit before, and errors that are recorded stay.
-/

namespace LetLang
namespace Parser

variable {α β : Type}

/-! ## The tables -/

/-- The functions that start an expression. -/
inductive Starter where
  | name
  | integer
  | boolean
  | operator
  | group
  | conditional
deriving DecidableEq, Repr

/-- The function that starts an expression at a token of some kind. -/
def starters : List (TokenKind × Starter) :=
  [(.ident, .name), (.int, .integer), (.trueWord, .boolean), (.falseWord, .boolean),
    (.bang, .operator), (.minus, .operator), (.lparen, .group), (.ifWord, .conditional)]

/-- The kinds of tokens with a function that continues an expression. -/
def continuers : List TokenKind :=
  [.plus, .minus, .asterisk, .slash, .eq, .notEq, .lt, .gt]

/-- How tightly a token binds what stands around it. -/
def strength : TokenKind → Precedence
  | .eq | .notEq => .equals
  | .lt | .gt => .lessGreater
  | .plus | .minus => .sum
  | .asterisk | .slash => .product
  | _ => .lowest

/-- A table has no entry for a token that another table led to. -/
inductive Gap where
  /-- No operator in front of an operand, where the operator function starts. -/
  | unaryOp
  /-- No operator between operands, where the operator function continues. -/
  | binaryOp
  /-- No function to continue, where the token binds tightly enough; with the
  operand so far. -/
  | continuer (left : Expr)

/-- In a gap nothing is recorded: the expression ends before the token, or it is
given up. -/
def Gap.silent : Gap → Parser Expr
  | continuer left => pure left
  | unaryOp | binaryOp => fun s => ⟨none, s, [], []⟩

theorem strength_eq_ofKind (kind : TokenKind) : strength kind = Precedence.ofKind kind := by
  cases kind <;> rfl

theorem isSome_unaryOp_of_starter
    {kind : TokenKind} (h : starters.lookup kind = some .operator) :
    (UnaryOp.ofKind? kind).isSome = true := by
  revert h
  cases kind <;> decide

theorem isSome_binaryOp_of_mem_continuers
    {kind : TokenKind} (h : kind ∈ continuers) : (BinaryOp.ofKind? kind).isSome = true := by
  revert h
  cases kind <;> decide

theorem mem_continuers_of_lt_strength
    {weakest : Precedence} {kind : TokenKind} (h : weakest < strength kind) :
    kind ∈ continuers := by
  have hlowest : ¬weakest < .lowest := Nat.not_lt_zero _
  cases kind with
  | plus | minus | asterisk | slash | eq | notEq | lt | gt => decide
  | _ => exact absurd h hlowest

theorem strength_of_ofKind?_eq_some
    {kind : TokenKind} {op : BinaryOp} (h : BinaryOp.ofKind? kind = some op) :
    strength kind = op.precedence := by
  rw [strength_eq_ofKind, Precedence.ofKind, h]
  rfl

/-! ## The parsers with tables -/

namespace Tabled

variable (atGap : Gap → Parser Expr)

/-- The operators behind a left operand that bind tighter than `weakest`. -/
def chain (operand : Precedence → Parser Expr) (weakest : Precedence) :
    (repeats : Nat) → Expr → Parser Expr
  | 0, left => pure left
  | repeats + 1, left => do
      let kind ← peek
      if kind ≠ .semicolon ∧ weakest < strength kind then
        if kind ∈ continuers then
          let token ← next
          match BinaryOp.ofKind? token.kind with
          | none => atGap .binaryOp
          | some op =>
              let right ← operand (strength token.kind)
              chain operand weakest repeats (.binary op left right)
        else
          atGap (.continuer left)
      else
        pure left

/-- The start of an expression. -/
def leading (expression : Precedence → Parser Expr) (block : Parser Block) : Parser Expr := do
  let token ← next
  match starters.lookup token.kind with
  | none => fail (.noExpression token.kind) token.position
  | some .name => pure (.name token.literal)
  | some .integer =>
      match Integer.parse? token.literal with
      | some n => pure (.int n)
      | none => fail (.badInteger token.literal) token.position
  | some .boolean => pure (.bool (token.kind = .trueWord))
  | some .operator =>
      match UnaryOp.ofKind? token.kind with
      | none => atGap .unaryOp
      | some op =>
          let operand ← expression .unary
          pure (.unary op operand)
  | some .group =>
      let inner ← expression .lowest
      let _ ← expect .rparen
      pure inner
  | some .conditional => conditional expression block

mutual

/-- An expression whose operators all bind tighter than `weakest`. -/
def expression : (room : Nat) → (weakest : Precedence) → Parser Expr
  | 0, _ => refuse
  | room + 1, weakest => do
      visit weakest
      let left ← leading atGap (expression room) (block room)
      bounded fun repeats => chain atGap (expression room) weakest repeats left

/-- A block from its opening to its closing brace. -/
def block : (room : Nat) → Parser Block
  | 0 => refuse
  | room + 1 => do
      let _ ← next
      let body ← bounded
        (statements (Parser.statement (expression room) (block room)) endsBlock)
      let closing ← next
      if closing.kind ≠ .rbrace then
        report (.unexpected .rbrace closing.kind) closing.position
      pure body

end

/-- A statement. -/
def statement (room : Nat) : Parser Stmt :=
  Parser.statement (expression atGap room) (block atGap room)

theorem next_bind_apply (f : Token → Parser β) (s : TokenStream) :
    (next >>= f) s = f s.head s.tail :=
  rfl

theorem chain_eq
    (operand : Precedence → Parser Expr) (weakest : Precedence) (repeats : Nat) (left : Expr) :
    chain atGap operand weakest repeats left = Parser.chain operand weakest repeats left := by
  induction repeats generalizing left with
  | zero => rfl
  | succ repeats ih =>
      funext s
      rw [chain, Parser.chain, peek_bind_apply, peek_bind_apply]
      by_cases hlt : weakest < strength s.head.kind
      · -- The three tables that are asked one after the other all have an entry.
        have hmem := mem_continuers_of_lt_strength hlt
        obtain ⟨op, hop⟩ := Option.isSome_iff_exists.mp (isSome_binaryOp_of_mem_continuers hmem)
        have hstrength := strength_of_ofKind?_eq_some hop
        have hsemicolon : s.head.kind ≠ .semicolon := by
          intro hkind
          rw [hkind] at hmem
          exact absurd hmem (by decide)
        rw [if_pos ⟨hsemicolon, hlt⟩, if_pos hmem, next_bind_apply]
        simp only [hop]
        rw [if_pos (hstrength ▸ hlt), next_bind_apply, hstrength]
        exact bind_apply_congr rfl fun right => congrFun (ih _) _
      · rw [if_neg fun h => hlt h.2]
        cases hop : BinaryOp.ofKind? s.head.kind with
        | none => rfl
        | some op =>
            have hle : ¬weakest < op.precedence := strength_of_ofKind?_eq_some hop ▸ hlt
            simp only [if_neg hle]

theorem leading_eq (expression : Precedence → Parser Expr) (block : Parser Block) :
    leading atGap expression block = Parser.leading expression block := by
  refine congrArg (next >>= ·) (funext fun token => ?_)
  obtain ⟨kind, literal, position⟩ := token
  cases kind <;> rfl

theorem expression_and_block_eq (room : Nat) :
    (∀ weakest, expression atGap room weakest = Parser.expression room weakest) ∧
      block atGap room = Parser.block room := by
  induction room with
  | zero => exact ⟨fun _ => rfl, rfl⟩
  | succ room ih =>
      obtain ⟨hexpression, hblock⟩ := ih
      have hexpression : expression atGap room = Parser.expression room := funext hexpression
      constructor
      · intro weakest
        rw [expression, Parser.expression, hexpression, hblock, leading_eq]
        simp only [chain_eq]
      · rw [block, Parser.block, hexpression, hblock]

theorem statement_eq (room : Nat) :
    statement atGap room = Parser.statement (Parser.expression room) (Parser.block room) := by
  obtain ⟨hexpression, hblock⟩ := expression_and_block_eq atGap room
  rw [statement, funext hexpression, hblock]

end Tabled

/-! ## What a parser keeps -/

/-- What a parser keeps from one call to the next. -/
structure State where
  /-- The tokens ahead. -/
  ahead : TokenStream
  /-- The errors recorded so far, in order. -/
  errors : List SyntaxError
  /-- Whether the nesting limit was hit, after which nothing is recorded. -/
  aborted : Bool

namespace State

/-- The state before the first call. -/
def start (s : TokenStream) : State :=
  ⟨s, [], false⟩

/-- Records an error, if the limit was not hit before. -/
def record (m : State) (e : SyntaxError) : State :=
  if m.aborted then m
  else { m with errors := m.errors ++ [e], aborted := e.cause = .nestedTooDeeply }

/-- The state behind a reading: its errors are recorded, and what it left is ahead. -/
def after (m : State) (r : Reading α) : State :=
  { r.errors.foldl record m with ahead := r.rest }

/-- Calls a parser: its outcome and the state behind it. -/
def call (m : State) (p : Parser α) : Option α × State :=
  ((p m.ahead).value, m.after (p m.ahead))

theorem foldl_record_of_aborted
    {m : State} (h : m.aborted = true) (errors : List SyntaxError) :
    errors.foldl record m = m := by
  induction errors with
  | nil => rfl
  | cons e errors ih => rw [List.foldl_cons, record, if_pos h, ih]

/-- What is recorded are the errors up to the first about the nesting. -/
theorem errors_foldl_record
    {m : State} (h : m.aborted = false) (errors : List SyntaxError) :
    (errors.foldl record m).errors = m.errors ++ SyntaxError.reported errors := by
  induction errors generalizing m with
  | nil => exact (List.append_nil _).symm
  | cons e errors ih =>
      have hrecord : m.record e =
          { m with errors := m.errors ++ [e], aborted := e.cause = .nestedTooDeeply } := by
        rw [record, h]
        rfl
      rw [List.foldl_cons, hrecord, SyntaxError.reported]
      by_cases he : e.cause = .nestedTooDeeply
      · rw [if_pos he, foldl_record_of_aborted (decide_eq_true he)]
      · rw [if_neg he, ih (decide_eq_false he)]
        exact List.append_assoc _ _ _

/-- Recording an error and going on in the stream do not depend on each other. -/
theorem foldl_record_ahead (m : State) (s : TokenStream) (errors : List SyntaxError) :
    errors.foldl record { m with ahead := s } = { errors.foldl record m with ahead := s } := by
  induction errors generalizing m with
  | nil => rfl
  | cons e errors ih =>
      have hrecord : record { m with ahead := s } e = { m.record e with ahead := s } := by
        unfold record
        split
        · rfl
        · rfl
      rw [List.foldl_cons, List.foldl_cons, hrecord, ih]

theorem errors_call_of_aborted {m : State} (h : m.aborted = true) (p : Parser α) :
    (m.call p).2.errors = m.errors := by
  change ((p m.ahead).errors.foldl record m).errors = m.errors
  rw [foldl_record_of_aborted h]

theorem errors_call {m : State} (h : m.aborted = false) (p : Parser α) :
    (m.call p).2.errors = m.errors ++ SyntaxError.reported (p m.ahead).errors :=
  errors_foldl_record h _

/-- Where the first of two parsers fails, the second one is not called. -/
theorem call_bind_of_eq_none
    {m : State} {p : Parser α} (f : α → Parser β) (h : (m.call p).1 = none) :
    m.call (p >>= f) = (none, (m.call p).2) := by
  have hvalue : (p m.ahead).value = none := h
  rw [call, bind_apply_of_eq_none hvalue]
  rfl

/-- Otherwise it is called in the state behind the first one. -/
theorem call_bind_of_eq_some
    {m : State} {p : Parser α} (f : α → Parser β) {a : α} (h : (m.call p).1 = some a) :
    m.call (p >>= f) = (m.call p).2.call (f a) := by
  have hvalue : (p m.ahead).value = some a := h
  have hrecorded : (f a (p m.ahead).rest).errors.foldl record (m.call p).2 =
      { ((p m.ahead).errors ++ (f a (p m.ahead).rest).errors).foldl record m with
        ahead := (p m.ahead).rest } := by
    rw [List.foldl_append]
    exact foldl_record_ahead _ _ _
  rw [call, bind_apply_of_eq_some hvalue]
  refine Prod.ext rfl ?_
  change after m _ = after (m.call p).2 (f a (p m.ahead).rest)
  rw [after, after, hrecorded]

end State

/-- However it is called, `p` keeps the errors that are recorded.  If it fails, it
has recorded one, unless the limit was hit before. -/
structure RecordsFailure (p : Parser α) : Prop where
  keeps : ∀ m : State, m.errors <+: (m.call p).2.errors
  adds : ∀ m : State, m.aborted = false → (m.call p).1 = none →
    m.errors.length < (m.call p).2.errors.length

theorem ReportsFailure.recordsFailure {p : Parser α} (hp : ReportsFailure p) :
    RecordsFailure p where
  keeps m := by
    cases h : m.aborted with
    | true =>
        have hsame := State.errors_call_of_aborted h p
        exact ⟨[], by rw [hsame, List.append_nil]⟩
    | false =>
        rw [State.errors_call h]
        exact List.prefix_append _ _
  adds m h hnone := by
    have hfound : (p m.ahead).errors ≠ [] := by
      intro hnil
      obtain ⟨a, ha⟩ := hp m.ahead hnil
      exact absurd (ha.symm.trans hnone) (by simp)
    have hreported : SyntaxError.reported (p m.ahead).errors ≠ [] :=
      fun hnil => hfound (SyntaxError.reported_eq_nil_iff.mp hnil)
    rw [State.errors_call h, List.length_append]
    exact Nat.lt_add_of_pos_right (List.length_pos_iff.mpr hreported)

/-- Every call of a parser for an expression, a statement or a block keeps the
errors that are recorded, and if it fails without having hit the nesting limit
before, it records one.  This is so whatever is answered in a gap of the tables:
they have none, and reading by them is what the parsers do.

Calls follow one another from state to state, and a call for a whole program leaves
the errors that are reported. -/
theorem failed_calls_record_errors (atGap : Gap → Parser Expr) :
    (∀ room, (∀ weakest, RecordsFailure (Tabled.expression atGap room weakest)) ∧
      RecordsFailure (Tabled.statement atGap room) ∧ RecordsFailure (Tabled.block atGap room)) ∧
    (∀ room, (∀ weakest, Tabled.expression atGap room weakest = expression room weakest) ∧
      Tabled.statement atGap room = statement (expression room) (block room) ∧
      Tabled.block atGap room = block room) ∧
    (∀ kind, (starters.lookup kind = some .operator → (UnaryOp.ofKind? kind).isSome = true) ∧
      (kind ∈ continuers → (BinaryOp.ofKind? kind).isSome = true) ∧
      ∀ weakest, weakest < strength kind → kind ∈ continuers) ∧
    (∀ (α β : Type) (p : Parser α) (f : α → Parser β) (m : State),
      m.call (p >>= f) =
        match m.call p with
        | (none, m') => (none, m')
        | (some a, m') => m'.call (f a)) ∧
    ∀ s, ((State.start s).call (program maxNesting)).1 = (Program.read s).value ∧
      ((State.start s).call (program maxNesting)).2.errors =
        SyntaxError.reported (Program.read s).errors := by
  refine ⟨fun room => ?_, fun room => ?_, fun kind => ?_, ?_, fun s => ?_⟩
  · obtain ⟨hexpression, hblock⟩ := Tabled.expression_and_block_eq atGap room
    simp only [hexpression, hblock, Tabled.statement_eq]
    exact ⟨fun weakest => (inherited_reportsFailure.expression room weakest).recordsFailure,
      (inherited_reportsFailure.statementWithin room).recordsFailure,
      (inherited_reportsFailure.block room).recordsFailure⟩
  · obtain ⟨hexpression, hblock⟩ := Tabled.expression_and_block_eq atGap room
    exact ⟨hexpression, Tabled.statement_eq atGap room, hblock⟩
  · exact ⟨isSome_unaryOp_of_starter, isSome_binaryOp_of_mem_continuers,
      fun weakest => mem_continuers_of_lt_strength⟩
  · intro α β p f m
    split
    · next m' hcall =>
      rw [State.call_bind_of_eq_none f (congrArg Prod.fst hcall), hcall]
    · next a m' hcall =>
      rw [State.call_bind_of_eq_some f (congrArg Prod.fst hcall), hcall]
  · exact ⟨rfl, State.errors_call rfl _⟩

/-- Behind an error that is recorded already, an operator without an operand ends a
statement, and an expression for which no level is left ends all recording. -/
theorem failed_calls_record_errors_twice :
    ∃ (m m' : State) (e : SyntaxError),
      e = ⟨.noExpression .comma, some ⟨1, 1⟩⟩ ∧
      m = ⟨.ofList [⟨.minus, "-", ⟨1, 2⟩⟩, ⟨.semicolon, ";", ⟨1, 3⟩⟩, ⟨.int, "7", ⟨1, 4⟩⟩],
        [e], false⟩ ∧
      m' = (m.call (Tabled.statement Gap.silent 2)).2 ∧
      (m.call (Tabled.statement Gap.silent 2)).1 = none ∧
      m'.errors = [e, ⟨.noExpression .semicolon, some ⟨1, 3⟩⟩] ∧ m'.aborted = false ∧
      (m'.call (Tabled.expression Gap.silent 0 .lowest)).1 = none ∧
      (m'.call (Tabled.expression Gap.silent 0 .lowest)).2.aborted = true ∧
      m.errors.length < m'.errors.length ∧
      m'.errors <+: (m'.call (Tabled.expression Gap.silent 0 .lowest)).2.errors ∧
      m'.errors.length < (m'.call (Tabled.expression Gap.silent 0 .lowest)).2.errors.length := by
  obtain ⟨hrecords, -⟩ := failed_calls_record_errors Gap.silent
  refine ⟨_, _, _, rfl, rfl, rfl, rfl, rfl, rfl, rfl, rfl, ?_, ?_, ?_⟩
  · exact (hrecords 2).2.1.adds _ rfl rfl
  · exact ((hrecords 0).1 .lowest).keeps _
  · exact ((hrecords 0).1 .lowest).adds _ rfl rfl

end Parser
end LetLang
