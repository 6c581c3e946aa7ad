import LetLang.Operator
import LetLang.SyntaxError
import LetLang.Token.Stream

/-!
# Reading a stream of tokens

A parser is a function from a stream of tokens to a reading: the thing that was
read, if it could be read, what is left of the stream, and what happened on the
way.  Errors are recorded and never undone, and a failed reading still says
where to go on, which is what lets a sequence of statements survive a broken
one.
-/

namespace LetLang

/-- The start of an expression, as the trace reports it. -/
structure Reading.Visit where
  /-- The kind of the token at which the expression starts. -/
  kind : TokenKind
  /-- The strength that the operators of the expression have to exceed. -/
  precedence : Precedence
deriving DecidableEq, Repr

/-- The outcome of a parser on a stream of tokens. -/
structure Reading (α : Type) where
  /-- What was read, or nothing after a failure. -/
  value : Option α
  /-- The tokens that are left. -/
  rest : TokenStream
  /-- The errors found, in order. -/
  errors : List SyntaxError
  /-- The expressions that were started, in order. -/
  visits : List Reading.Visit
deriving DecidableEq, Repr

/-- A parser takes a piece of syntax off the front of a stream. -/
def Parser (α : Type) : Type :=
  TokenStream → Reading α

namespace Parser

variable {α β : Type}

/-- Reads one thing and then another that may depend on it; a failure of the
first is a failure of both. -/
def andThen (p : Parser α) (f : α → Parser β) : Parser β := fun s =>
  let r := p s
  match r.value with
  | none => ⟨none, r.rest, r.errors, r.visits⟩
  | some a =>
      let q := f a r.rest
      ⟨q.value, q.rest, r.errors ++ q.errors, r.visits ++ q.visits⟩

instance : Monad Parser where
  pure a := fun s => ⟨some a, s, [], []⟩
  bind := andThen

@[simp] theorem pure_apply (a : α) (s : TokenStream) :
    (pure a : Parser α) s = ⟨some a, s, [], []⟩ := rfl

/-- If the first parser fails, so does the sequence, in the same way. -/
theorem bind_apply_of_eq_none {p : Parser α} {f : α → Parser β} {s : TokenStream}
    (h : (p s).value = none) :
    (p >>= f) s = ⟨none, (p s).rest, (p s).errors, (p s).visits⟩ := by
  change andThen p f s = _
  simp [andThen, h]

/-- If the first parser succeeds, the second one goes on where it stopped. -/
theorem bind_apply_of_eq_some {p : Parser α} {f : α → Parser β} {s : TokenStream} {a : α}
    (h : (p s).value = some a) :
    (p >>= f) s =
      ⟨(f a (p s).rest).value, (f a (p s).rest).rest,
        (p s).errors ++ (f a (p s).rest).errors,
        (p s).visits ++ (f a (p s).rest).visits⟩ := by
  change andThen p f s = _
  simp [andThen, h]

/-- The kind of the next token, which stays in the stream. -/
def peek : Parser TokenKind := fun s =>
  ⟨some s.head.kind, s, [], []⟩

/-- Takes the next token off the stream. -/
def next : Parser Token := fun s =>
  ⟨some s.head, s.tail, [], []⟩

/-- Fails with an error at a given place. -/
def fail (cause : SyntaxError.Cause) (position : Position) : Parser α := fun s =>
  ⟨none, s, [⟨cause, some position⟩], []⟩

/-- Records an error at a given place and goes on. -/
def report (cause : SyntaxError.Cause) (position : Position) : Parser Unit := fun s =>
  ⟨some (), s, [⟨cause, some position⟩], []⟩

/-- Fails at the next token unless it is of the given kind; either way the token
stays in the stream. -/
def require (kind : TokenKind) : Parser Unit := fun s =>
  if s.head.kind = kind then
    ⟨some (), s, [], []⟩
  else
    ⟨none, s, [⟨.unexpected kind s.head.kind, some s.head.position⟩], []⟩

/-- Takes the next token, which has to be of the given kind. -/
def expect (kind : TokenKind) : Parser Token := do
  require kind
  next

/-- Drops the next token if it is of the given kind. -/
def skipIf (kind : TokenKind) : Parser Unit := fun s =>
  ⟨some (), if s.head.kind = kind then s.tail else s, [], []⟩

/-- Records that an expression starts at the next token. -/
def visit (precedence : Precedence) : Parser Unit := fun s =>
  ⟨some (), s, [], [⟨s.head.kind, precedence⟩]⟩

/-- Fails because the nesting is too deep, and drops the input up to its end. -/
def refuse : Parser α := fun s =>
  ⟨none, s.afterEof, [⟨.nestedTooDeeply, some s.head.position⟩], []⟩

/-- Reads a thing that may be broken: a failure yields nothing and the reading
goes on behind it. -/
def orSkip (p : Parser α) : Parser (Option α) := fun s =>
  let r := p s
  ⟨some r.value, r.rest, r.errors, r.visits⟩

/-- Runs a parser that is told how many tokens are ahead of it, as a bound on
how often it can repeat itself. -/
def bounded (p : Nat → Parser α) : Parser α := fun s =>
  p s.tokens.length s

end Parser

end LetLang
