import LetLang.Proofs.Parser.Progress

/-!
# Reading comes to an end

A parser is told how many levels of nesting are left for it, and its loops are
told how often they may repeat.  This module looks at reading without such
promises.  A machine keeps a single counter that goes up when an expression or a
block starts and down when it is over, and its loops go on until a token stops
them.  It runs against a clock that every call lets tick, and without time left
it has no outcome, so a loop that never stops would have none by any clock.

There is no such loop.  On every stream of tokens the machine ends, given enough
time, with the outcome of the parsers, and whatever part of it is run leaves the
counter as it was.  What makes the loops end is that every statement takes at
least one token, however broken it is.
-/

namespace LetLang

/-- What a machine that reads tokens keeps. -/
structure Machine.State where
  /-- The tokens from the current one on. -/
  ahead : TokenStream
  /-- The errors found so far, in order. -/
  errors : List SyntaxError
  /-- The expressions started so far, in order. -/
  visits : List Reading.Visit
  /-- The counter: how many expressions and blocks are open. -/
  depth : Nat
  /-- The largest value that the counter has had. -/
  peak : Nat

/-- Programs of the machine.  One that runs out of time has no outcome. -/
abbrev Machine := StateT Machine.State Option

namespace Machine

open LetLang.Parser (endsBlock endsProgram maxNesting)

variable {α β : Type}

/-- The state in which the machine starts to read a stream. -/
def State.start (s : TokenStream) : State :=
  ⟨s, [], [], 0, 0⟩

/-- The state behind a reading, with another value for the peak. -/
def State.after (m : State) (r : Reading α) (peak : Nat) : State :=
  ⟨r.rest, m.errors ++ r.errors, m.visits ++ r.visits, m.depth, peak⟩

/-- A step that is the same for the machine and for the parsers. -/
def step (p : Parser α) : OptionT Machine α := fun m =>
  some ((p m.ahead).value, m.after (p m.ahead) m.peak)

/-- No time is left. -/
def timeOut : OptionT Machine α := fun _ => none

/-- Runs `c` with the counter one higher, if the limit allows it. -/
def nested (c : OptionT Machine α) : OptionT Machine α := fun m =>
  if m.depth < maxNesting then
    (c { m with depth := m.depth + 1, peak := max m.peak (m.depth + 1) }).map
      fun (result, m') => (result, { m' with depth := m'.depth - 1 })
  else
    step .refuse m

/-- Runs `c` and takes a failure for an outcome. -/
def attempt (c : OptionT Machine α) : OptionT Machine (Option α) := fun m =>
  (c m).map fun (result, m') => (some result, m')

mutual

/-- An expression, one level deeper. -/
def expression : (clock : Nat) → Precedence → OptionT Machine Expr
  | 0, _ => timeOut
  | clock + 1, weakest => nested do
      step (.visit weakest)
      let left ← leading clock
      operators clock weakest left

/-- The infix operators behind a left operand. -/
def operators : (clock : Nat) → Precedence → (left : Expr) → OptionT Machine Expr
  | 0, _, _ => timeOut
  | clock + 1, weakest, left => do
      match BinaryOp.ofKind? (← step .peek) with
      | none => pure left
      | some op =>
          if weakest < op.precedence then
            let _ ← step .next
            let right ← expression clock op.precedence
            operators clock weakest (.binary op left right)
          else
            pure left

/-- The start of an expression. -/
def leading : (clock : Nat) → OptionT Machine Expr
  | 0 => timeOut
  | clock + 1 => do
      let token ← step .next
      match token.kind with
      | .ident => pure (.name token.literal)
      | .int =>
          match Integer.parse? token.literal with
          | some n => pure (.int n)
          | none => step (.fail (.badInteger token.literal) token.position)
      | .trueWord => pure (.bool true)
      | .falseWord => pure (.bool false)
      | .bang => do
          let operand ← expression clock .unary
          pure (.unary .not operand)
      | .minus => do
          let operand ← expression clock .unary
          pure (.unary .neg operand)
      | .lparen => do
          let inner ← expression clock .lowest
          let _ ← step (.expect .rparen)
          pure inner
      | .ifWord => conditional clock
      | kind => step (.fail (.noExpression kind) token.position)

/-- What follows the word `if`. -/
def conditional : (clock : Nat) → OptionT Machine Expr
  | 0 => timeOut
  | clock + 1 => do
      let _ ← step (.expect .lparen)
      let condition ← expression clock .lowest
      let _ ← step (.expect .rparen)
      step (.require .lbrace)
      let consequence ← block clock
      if (← step .peek) = .elseWord then
        let _ ← step .next
        step (.require .lbrace)
        let alternative ← block clock
        pure (.ifElse condition consequence alternative)
      else
        pure (.ifThen condition consequence)

/-- A block from its opening to its closing brace, one level deeper. -/
def block : (clock : Nat) → OptionT Machine Block
  | 0 => timeOut
  | clock + 1 => nested do
      let _ ← step .next
      let body ← sequence clock endsBlock
      let closing ← step .next
      if closing.kind ≠ .rbrace then
        step (.report (.unexpected .rbrace closing.kind) closing.position)
      pure body

/-- A statement. -/
def statement : (clock : Nat) → OptionT Machine Stmt
  | 0 => timeOut
  | clock + 1 => do
      match ← step .peek with
      | .letWord => do
          let _ ← step .next
          let name ← step (.expect .ident)
          let _ ← step (.expect .assign)
          let value ← expression clock .lowest
          step (.skipIf .semicolon)
          pure (.bind name.literal value)
      | .returnWord => do
          let _ ← step .next
          let value ← expression clock .lowest
          step (.skipIf .semicolon)
          pure (.ret value)
      | .lbrace => do
          let statements ← block clock
          pure (.block statements)
      | _ => do
          let value ← expression clock .lowest
          step (.skipIf .semicolon)
          pure (.expr value)

/-- Statements up to a token at which the sequence stops. -/
def sequence : (clock : Nat) → (stops : TokenKind → Bool) → OptionT Machine (List Stmt)
  | 0, _ => timeOut
  | clock + 1, stops => do
      if stops (← step .peek) then
        pure []
      else
        let first ← attempt (statement clock)
        let others ← sequence clock stops
        pure (first.toList ++ others)

end

/-- The statements of a program up to the end of the input. -/
def program (clock : Nat) : OptionT Machine Program := do
  let body ← sequence clock endsProgram
  pure ⟨body⟩

/-- With enough time `c` comes to an end, and more time makes no difference. -/
def Halts
    (c : (clock : Nat) → OptionT Machine α) (m : State) (result : Option α) (m' : State) : Prop :=
  ∃ enough, ∀ clock, enough ≤ clock → c clock m = some (result, m')

/-! ## Following a parser -/

section Halts

variable {c : Nat → OptionT Machine α} {f : Nat → α → OptionT Machine β} {m m' m'' : State}

theorem Halts.bind_none (hc : Halts c m none m') :
    Halts (fun clock => c clock >>= f clock) m none m' := by
  obtain ⟨enough, hc⟩ := hc
  refine ⟨enough, fun clock hclock => ?_⟩
  change (c clock m).bind _ = _
  rw [hc clock hclock]
  rfl

theorem Halts.bind_some
    {a : α} {result : Option β} (hc : Halts c m (some a) m')
    (hf : Halts (fun clock => f clock a) m' result m'') :
    Halts (fun clock => c clock >>= f clock) m result m'' := by
  obtain ⟨enough, hc⟩ := hc
  obtain ⟨enough', hf⟩ := hf
  refine ⟨max enough enough', fun clock hclock => ?_⟩
  change (c clock m).bind _ = _
  rw [hc clock (Nat.le_trans (Nat.le_max_left _ _) hclock)]
  exact hf clock (Nat.le_trans (Nat.le_max_right _ _) hclock)

theorem Halts.of_tick {result : Option α} (hc : Halts (fun clock => c (clock + 1)) m result m') :
    Halts c m result m' := by
  obtain ⟨enough, hc⟩ := hc
  refine ⟨enough + 1, fun clock hclock => ?_⟩
  obtain ⟨clock, rfl⟩ := Nat.exists_eq_add_of_le' (Nat.le_trans (Nat.le_add_left 1 _) hclock)
  exact hc clock (Nat.le_of_succ_le_succ hclock)

end Halts

/-- Run on the tokens `s` where `room` levels are left, `c` ends like `p`, and the
counter is back where it was. -/
def Follows
    (room : Nat) (c : Nat → OptionT Machine α) (p : Parser α) (s : TokenStream) : Prop :=
  ∀ m : State, m.ahead = s → m.depth + room = maxNesting →
    ∃ peak ≤ max m.peak maxNesting, Halts c m (p s).value (m.after (p s) peak)

variable {room : Nat} {s : TokenStream}

theorem follows_step (p : Parser α) : Follows room (fun _ => step p) p s := by
  rintro m rfl -
  exact ⟨m.peak, Nat.le_max_left _ _, 0, fun _ _ => rfl⟩

theorem follows_pure (a : α) : Follows room (fun _ => pure a) (pure a) s := by
  rintro m rfl -
  refine ⟨m.peak, Nat.le_max_left _ _, 0, fun _ _ => ?_⟩
  simp [State.after]
  rfl

namespace Follows

theorem congr
    {c : Nat → OptionT Machine α} {p q : Parser α} (hq : Follows room c q s) (h : p s = q s) :
    Follows room c p s := by
  intro m hm hdepth
  rw [h]
  exact hq m hm hdepth

theorem of_tick
    {c : Nat → OptionT Machine α} {p : Parser α}
    (hc : Follows room (fun clock => c (clock + 1)) p s) : Follows room c p s := by
  intro m hm hdepth
  obtain ⟨peak, hpeak, hhalts⟩ := hc m hm hdepth
  exact ⟨peak, hpeak, hhalts.of_tick⟩

theorem bind
    {c : Nat → OptionT Machine α} {p : Parser α}
    {f : Nat → α → OptionT Machine β} {g : α → Parser β} (hc : Follows room c p s)
    (hf : ∀ a, (p s).value = some a → Follows room (fun clock => f clock a) (g a) (p s).rest) :
    Follows room (fun clock => c clock >>= f clock) (p >>= g) s := by
  intro m hm hdepth
  obtain ⟨peak, hpeak, hhalts⟩ := hc m hm hdepth
  cases hvalue : (p s).value with
  | none =>
      rw [hvalue] at hhalts
      rw [Parser.bind_apply_of_eq_none hvalue]
      exact ⟨peak, hpeak, hhalts.bind_none⟩
  | some a =>
      rw [hvalue] at hhalts
      obtain ⟨peak', hpeak', hhalts'⟩ := hf a hvalue (m.after (p s) peak) rfl hdepth
      refine ⟨peak', Nat.le_trans hpeak' (Nat.max_le.mpr ⟨hpeak, Nat.le_max_right _ _⟩), ?_⟩
      rw [Parser.bind_apply_of_eq_some hvalue]
      simpa [State.after] using hhalts.bind_some hhalts'

theorem peek_bind
    {f : Nat → TokenKind → OptionT Machine α} {p : Parser α}
    (hf : Follows room (fun clock => f clock s.head.kind) p s) :
    Follows room (fun clock => step .peek >>= f clock) p s := by
  rintro m rfl hdepth
  obtain ⟨peak, hpeak, hhalts⟩ := hf m rfl hdepth
  have hpeek : Halts (fun _ => step .peek) m (some m.ahead.head.kind) m :=
    ⟨0, fun _ _ => by simp [step, Parser.peek, State.after]⟩
  exact ⟨peak, hpeak, hpeek.bind_some hhalts⟩

/-- One level deeper, the counter is one higher for what is inside. -/
theorem nested
    {c : Nat → OptionT Machine α} {p : Parser α} (hc : Follows room c p s) :
    Follows (room + 1) (fun clock => nested (c clock)) p s := by
  rintro m rfl hdepth
  have hroom : m.depth < maxNesting := by omega
  -- Inside, one level less is left and the counter is one higher, so their sum is the same.
  let entered : State := { m with depth := m.depth + 1, peak := max m.peak (m.depth + 1) }
  obtain ⟨peak, hpeak, enough, hhalts⟩ := hc entered rfl (by simp only [entered]; omega)
  refine ⟨peak, by simp only [entered] at hpeak; omega, enough, fun clock hclock => ?_⟩
  have hnested : Machine.nested (c clock) m = (c clock entered).map fun (result, m') =>
      (result, { m' with depth := m'.depth - 1 }) := if_pos hroom
  refine hnested.trans ?_
  rw [hhalts clock hclock]
  simp [State.after, entered]

theorem attempt
    {c : Nat → OptionT Machine α} {p : Parser α} (hc : Follows room c p s) :
    Follows room (fun clock => attempt (c clock)) (.orSkip p) s := by
  intro m hm hdepth
  obtain ⟨peak, hpeak, enough, hhalts⟩ := hc m hm hdepth
  refine ⟨peak, hpeak, enough, fun clock hclock => ?_⟩
  change (c clock m).map _ = _
  rw [hhalts clock hclock]
  rfl

end Follows

/-- With the counter at the limit there is no level left. -/
theorem follows_nested_zero (c : Nat → OptionT Machine α) :
    Follows 0 (fun clock => nested (c clock)) .refuse s := by
  rintro m rfl hdepth
  have hfull : ¬m.depth < maxNesting := by omega
  exact ⟨m.peak, Nat.le_max_left _ _, 0, fun clock _ => if_neg hfull⟩

/-! ## The machine follows the parsers -/

section Phrases

variable
  (hexpression : ∀ weakest s,
    Follows room (fun clock => expression clock weakest) (.expression room weakest) s)
  (hblock : ∀ s, Follows room block (.block room) s)

include hexpression in
/-- The induction is on the number of tokens ahead, of which every operator takes
one. -/
theorem follows_operators (weakest : Precedence) (left : Expr) (s : TokenStream) :
    Follows room (fun clock => operators clock weakest left)
      (.operators (.expression room) weakest left) s := by
  induction hlength : s.tokens.length using Nat.strongRecOn generalizing left s with
  | ind n ih =>
      apply Follows.of_tick
      simp only [operators]
      apply Follows.peek_bind
      obtain hends | ⟨op, hop, hlt⟩ := Parser.endsOperators_or_exists_op weakest s.head.kind
      · refine Follows.congr ?_ (Parser.operators_apply_of_ends hends)
        cases hop : BinaryOp.ofKind? s.head.kind with
        | none => exact follows_pure left
        | some op =>
            simp only [hends op hop, if_false]
            exact follows_pure left
      · have hadvances := Parser.advances_expression room
        refine Follows.congr ?_ (Parser.operators_apply_of_op hadvances hop hlt)
        simp only [hop, hlt, if_true]
        refine (follows_step .next).bind fun _ _ => ?_
        refine (hexpression _ _).bind fun right _ => ih _ ?_ _ _ rfl
        have hright := (hadvances op.precedence).length_le (Parser.next s).rest
        have htail : (Parser.next s).rest.tokens.length = s.tokens.length - 1 := by
          simp [Parser.next]
        have hpos : s.tokens.length ≠ 0 := by
          intro hzero
          rw [Parser.head_kind_of_length_le_zero (Nat.le_of_eq hzero)] at hop
          exact absurd hop (by simp [BinaryOp.ofKind?])
        omega

include hexpression hblock

theorem follows_conditional (s : TokenStream) :
    Follows room conditional (.conditional (.expression room) (.block room)) s := by
  apply Follows.of_tick
  simp only [conditional]
  refine (follows_step _).bind fun _ _ => (hexpression _ _).bind fun condition _ => ?_
  refine (follows_step _).bind fun _ _ => (follows_step _).bind fun _ _ => ?_
  refine (hblock _).bind fun consequence _ => (follows_step _).bind fun kind _ => ?_
  split
  · refine (follows_step _).bind fun _ _ => (follows_step _).bind fun _ _ => ?_
    exact (hblock _).bind fun alternative _ => follows_pure _
  · exact follows_pure _

theorem follows_leading (s : TokenStream) :
    Follows room leading (.leading (.expression room) (.block room)) s := by
  apply Follows.of_tick
  simp only [leading]
  refine (follows_step .next).bind fun token _ => ?_
  obtain ⟨kind, literal, position⟩ := token
  cases kind with
  | ident | trueWord | falseWord => exact follows_pure _
  | int =>
      cases hn : Integer.parse? literal with
      | none => simpa only [hn] using follows_step _
      | some n => simpa only [hn] using follows_pure _
  | bang | minus => exact (hexpression _ _).bind fun operand _ => follows_pure _
  | lparen =>
      refine (hexpression _ _).bind fun inner _ => ?_
      exact (follows_step _).bind fun _ _ => follows_pure _
  | ifWord => exact follows_conditional hexpression hblock _
  | _ => exact follows_step _

theorem follows_statement (s : TokenStream) :
    Follows room statement (.statement (.expression room) (.block room)) s := by
  have hvalue (f : Expr → Stmt) (s : TokenStream) :
      Follows room
        (fun clock => do
          let value ← expression clock .lowest
          step (.skipIf .semicolon)
          pure (f value))
        (do
          let value ← Parser.expression room .lowest
          Parser.skipIf .semicolon
          pure (f value)) s :=
    (hexpression _ _).bind fun _ _ => (follows_step _).bind fun _ _ => follows_pure _
  apply Follows.of_tick
  simp only [statement]
  refine (follows_step _).bind fun kind _ => ?_
  cases kind with
  | letWord =>
      refine (follows_step _).bind fun _ _ => (follows_step _).bind fun name _ => ?_
      exact (follows_step _).bind fun _ _ => hvalue (.bind name.literal) _
  | returnWord => exact (follows_step _).bind fun _ _ => hvalue .ret _
  | lbrace => exact (hblock _).bind fun _ _ => follows_pure _
  | _ => exact hvalue .expr _

/-- The induction is on the number of tokens ahead, of which every statement takes
at least one. -/
theorem follows_sequence
    (stops : TokenKind → Bool) (heof : stops .eof = true) (s : TokenStream) :
    Follows room (fun clock => sequence clock stops)
      (.sequence (.statement (.expression room) (.block room)) stops) s := by
  have hconsumes := Parser.consumes_statement room
  induction hlength : s.tokens.length using Nat.strongRecOn generalizing s with
  | ind n ih =>
      apply Follows.of_tick
      simp only [sequence]
      apply Follows.peek_bind
      cases hs : stops s.head.kind with
      | true =>
          refine Follows.congr ?_ (Parser.sequence_apply_of_stops hs)
          simp only [if_true]
          exact follows_pure []
      | false =>
          refine Follows.congr ?_ (Parser.sequence_apply_of_not_stops hconsumes heof hs)
          simp only [Bool.false_eq_true, if_false]
          refine (follows_statement hexpression hblock _).attempt.bind fun first _ => ?_
          have hshorter := Parser.length_rest_lt_of_not_stops hconsumes heof hs
          exact (ih _ (hlength ▸ hshorter) _ rfl).bind fun others _ => follows_pure _

end Phrases

theorem follows_expression_and_block (room : Nat) :
    (∀ weakest s,
      Follows room (fun clock => expression clock weakest) (.expression room weakest) s) ∧
      ∀ s, Follows room block (.block room) s := by
  induction room with
  | zero =>
      constructor
      · intro weakest s
        apply Follows.of_tick
        simp only [expression]
        exact follows_nested_zero _
      · intro s
        apply Follows.of_tick
        simp only [block]
        exact follows_nested_zero _
  | succ room ih =>
      obtain ⟨hexpression, hblock⟩ := ih
      constructor
      · intro weakest s
        apply Follows.of_tick
        simp only [expression]
        refine Follows.nested ((follows_step _).bind fun _ _ => ?_)
        refine (follows_leading hexpression hblock _).bind fun left _ => ?_
        exact follows_operators hexpression weakest left _
      · intro s
        apply Follows.of_tick
        simp only [block]
        refine Follows.nested ((follows_step _).bind fun _ _ => ?_)
        refine (follows_sequence hexpression hblock endsBlock rfl _).bind fun body _ => ?_
        refine (follows_step _).bind fun closing _ => ?_
        split
        · exact (follows_step _).bind fun _ _ => follows_pure _
        · exact follows_pure _

theorem follows_program (s : TokenStream) : Follows maxNesting program Program.read s := by
  obtain ⟨hexpression, hblock⟩ := follows_expression_and_block maxNesting
  exact (follows_sequence hexpression hblock endsProgram rfl _).bind fun _ _ => follows_pure _

/-- On every stream of tokens the machine comes to an end, with the program, the
errors and the rest of the stream that the parsers yield.  The current token is then
the end of the input, the counter is at zero, and it has never been beyond the limit.

Wherever a statement of a program or of a block starts, reading it comes to an end
with fewer tokens ahead and with the counter as it was. -/
theorem program_halts_at_eof :
    (∀ s : TokenStream, ∃ (p : Program) (m : State), Halts program (.start s) (some p) m ∧
      Program.read s = ⟨some p, m.ahead, m.errors, m.visits⟩ ∧
      m.ahead.head.kind = .eof ∧ m.depth = 0 ∧ m.peak ≤ maxNesting) ∧
    ∀ m : State, m.depth ≤ maxNesting → m.ahead.head.kind ≠ .eof →
      ∃ (result : Option Stmt) (m' : State), Halts statement m result m' ∧
        m'.ahead.tokens.length < m.ahead.tokens.length ∧ m'.depth = m.depth := by
  constructor
  · intro s
    obtain ⟨peak, hpeak, hrun⟩ := follows_program s (.start s) rfl (Nat.zero_add _)
    obtain ⟨statements, hvalue⟩ := Program.exists_value_read s
    rw [hvalue] at hrun
    refine ⟨⟨statements⟩, _, hrun, ?_, ?_, rfl, ?_⟩
    · rw [← hvalue]
      rfl
    · have hends := (Program.body_ends s).2
      rw [State.after, Program.read_eq]
      exact of_decide_eq_true hends
    · exact Nat.le_trans hpeak (Nat.max_le.mpr ⟨Nat.zero_le _, Nat.le_refl _⟩)
  · intro m hdepth hhead
    obtain ⟨hexpression, hblock⟩ := follows_expression_and_block (maxNesting - m.depth)
    obtain ⟨peak, -, hrun⟩ := follows_statement hexpression hblock m.ahead m rfl (by omega)
    refine ⟨_, _, hrun, ?_, rfl⟩
    have hconsumes := Parser.consumes_statement (maxNesting - m.depth)
    have hgoes : endsProgram m.ahead.head.kind = false := decide_eq_false hhead
    exact Parser.length_rest_lt_of_not_stops hconsumes rfl hgoes

/-- With the counter at the limit an expression is refused, and the input is dropped up
to an end-of-input token in the middle of it.  With the counter at zero the operator
takes that token in the place of an operand, and the reading goes on behind it. -/
theorem program_halts_at_eof_refused :
    ∃ (ts : List Token) (m : State),
      ts = [⟨.bang, "!", ⟨1, 1⟩⟩, ⟨.eof, "", ⟨1, 2⟩⟩, ⟨.rbrace, "\x7d", ⟨1, 3⟩⟩,
        ⟨.int, "7", ⟨1, 4⟩⟩, ⟨.lbrace, "\x7b", ⟨1, 5⟩⟩] ∧
      m = ⟨.ofList ts, [], [], 256, 256⟩ ∧ m.depth ≤ maxNesting ∧ m.ahead.head.kind ≠ .eof ∧
      (∃ (result : Option Stmt) (m' : State), Halts statement m result m' ∧
        m'.ahead.tokens.length < m.ahead.tokens.length ∧ m'.depth = m.depth) ∧
      ∃ (p : Program) (m' : State), Halts program (.start (.ofList ts)) (some p) m' ∧
        Program.read (.ofList ts) = ⟨some p, m'.ahead, m'.errors, m'.visits⟩ ∧
        m'.ahead.head.kind = .eof ∧ m'.depth = 0 ∧ m'.peak ≤ maxNesting := by
  refine ⟨_, _, rfl, rfl, by decide, by decide, ?_, ?_⟩
  · exact program_halts_at_eof.2 _ (by decide) (by decide)
  · exact program_halts_at_eof.1 _

end Machine
end LetLang
