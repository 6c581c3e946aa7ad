import LetLang.Program.Basic
import LetLang.Reading
import LetLang.Token.Lexer

/-!
# From tokens to programs

Expressions are read by climbing the ladder of binding strengths: an operand,
and then every infix operator that binds tighter than the surrounding one, with
its right operand read at the operator's own strength, so that equal operators
group to the left.

How deeply expressions and blocks may be nested is limited.  The recursion runs
on the number of levels that are still available, and a piece of syntax for
which no level is left is refused.  Sequences of statements and chains of
operators repeat at most once for every token that is ahead.
-/

namespace LetLang

namespace Parser

/-- How many levels of expressions and blocks may be nested in each other. -/
def maxNesting : Nat := 256

/-- The infix operators behind a left operand that bind tighter than `weakest`,
with their right operands, grouped to the left.  `operand` reads an operand at
the strength of the operator before it. -/
def chain (operand : Precedence → Parser Expr) (weakest : Precedence) :
    (repeats : Nat) → Expr → Parser Expr
  | 0, left => pure left
  | repeats + 1, left => do
      match BinaryOp.ofKind? (← peek) with
      | none => pure left
      | some op =>
          if weakest < op.precedence then do
            let _ ← next
            let right ← operand op.precedence
            chain operand weakest repeats (.binary op left right)
          else
            pure left

/-- What follows the word `if`: a condition in parentheses, a block, and maybe
`else` with another block. -/
def conditional (expression : Precedence → Parser Expr) (block : Parser Block) :
    Parser Expr := do
  let _ ← expect .lparen
  let condition ← expression .lowest
  let _ ← expect .rparen
  require .lbrace
  let consequence ← block
  if (← peek) = .elseWord then
    let _ ← next
    require .lbrace
    let alternative ← block
    pure (.ifElse condition consequence alternative)
  else
    pure (.ifThen condition consequence)

/-- The start of an expression: a name, a literal, an operator with its operand,
an expression in parentheses or a conditional. -/
def leading (expression : Precedence → Parser Expr) (block : Parser Block) :
    Parser Expr := do
  let token ← next
  match token.kind with
  | .ident => pure (.name token.literal)
  | .int =>
      match Integer.parse? token.literal with
      | some n => pure (.int n)
      | none => fail (.badInteger token.literal) token.position
  | .trueWord => pure (.bool true)
  | .falseWord => pure (.bool false)
  | .bang => do
      let operand ← expression .unary
      pure (.unary .not operand)
  | .minus => do
      let operand ← expression .unary
      pure (.unary .neg operand)
  | .lparen => do
      let inner ← expression .lowest
      let _ ← expect .rparen
      pure inner
  | .ifWord => conditional expression block
  | kind => fail (.noExpression kind) token.position

/-- A statement; a semicolon behind its expression belongs to it. -/
def statement (expression : Precedence → Parser Expr) (block : Parser Block) :
    Parser Stmt := do
  match ← peek with
  | .letWord => do
      let _ ← next
      let name ← expect .ident
      let _ ← expect .assign
      let value ← expression .lowest
      skipIf .semicolon
      pure (.bind name.literal value)
  | .returnWord => do
      let _ ← next
      let value ← expression .lowest
      skipIf .semicolon
      pure (.ret value)
  | .lbrace => do
      let statements ← block
      pure (.block statements)
  | _ => do
      let value ← expression .lowest
      skipIf .semicolon
      pure (.expr value)

/-- Statements up to a token at which the sequence stops.  A broken statement is
left out, and the next one starts where its reading gave up. -/
def statements (statement : Parser Stmt) (stops : TokenKind → Bool) :
    (repeats : Nat) → Parser (List Stmt)
  | 0 => pure []
  | repeats + 1 => do
      if stops (← peek) then
        pure []
      else
        let first ← orSkip statement
        let others ← statements statement stops repeats
        pure (first.toList ++ others)

/-- Whether a kind of token ends the statements of a block. -/
def endsBlock (kind : TokenKind) : Bool :=
  kind = .rbrace ∨ kind = .eof

/-- Whether a kind of token ends the statements of a program. -/
def endsProgram (kind : TokenKind) : Bool :=
  kind = .eof

mutual

/-- An expression whose infix operators all bind tighter than `weakest`, with
`room` levels of nesting left for it. -/
def expression : (room : Nat) → (weakest : Precedence) → Parser Expr
  | 0, _ => refuse
  | room + 1, weakest => do
      visit weakest
      let left ← leading (expression room) (block room)
      bounded fun repeats => chain (expression room) weakest repeats left

/-- A block from its opening to its closing brace, with `room` levels of nesting
left for it.  If the input ends before the closing brace, that is an error, and
the statements so far are the block. -/
def block : (room : Nat) → Parser Block
  | 0 => refuse
  | room + 1 => do
      let _ ← next
      let body ← bounded (statements (statement (expression room) (block room)) endsBlock)
      let closing ← next
      if closing.kind ≠ .rbrace then
        report (.unexpected .rbrace closing.kind) closing.position
      pure body

end

/-- The statements of a program up to the end of the input, with `room` levels of
nesting left. -/
def program (room : Nat) : Parser Program := do
  let body ← bounded (statements (statement (expression room) (block room)) endsProgram)
  pure ⟨body⟩

end Parser

namespace Program

/-- Reads a program off a stream of tokens. -/
def read (s : TokenStream) : Reading Program :=
  Parser.program Parser.maxNesting s

/-- The program that was read, or every error that is reported if there is one. -/
def ofReading (reading : Reading Program) : Except (List SyntaxError) Program :=
  match SyntaxError.reported reading.errors, reading.value with
  | [], some program => .ok program
  | errors, _ => .error errors

/-- Parses a source text. -/
def parse (source : String) : Except (List SyntaxError) Program :=
  ofReading (read (.ofSource source))

end Program

end LetLang
