import LetLang.Token.Basic

/-!
# Streams of tokens

A stream hands out a finite list of tokens and after that, for ever, an
end-of-input marker at a fixed place.  An end-of-input token may also stand in
the middle of the list; the stream gives it no special treatment.
-/

namespace LetLang

/-- Tokens to come, and the place of the end-of-input marker behind them. -/
structure TokenStream where
  /-- The tokens that are still ahead. -/
  tokens : List Token
  /-- The place of every end-of-input marker after the last token. -/
  ending : Position
deriving DecidableEq, Repr

namespace TokenStream

/-- The stream over a given list.  Its end lies at the last token, or at line
and column zero if there is none. -/
def ofList (tokens : List Token) : TokenStream :=
  ⟨tokens, (tokens.getLast?.map Token.position).getD ⟨0, 0⟩⟩

/-- The first token of the stream. -/
def head (s : TokenStream) : Token :=
  s.tokens.headD (Token.eof s.ending)

/-- The stream after its first token. -/
def tail (s : TokenStream) : TokenStream :=
  { s with tokens := s.tokens.tail }

/-- The next `n` tokens of the stream. -/
def take : Nat → TokenStream → List Token
  | 0, _ => []
  | n + 1, s => s.head :: take n s.tail

/-- The stream after its first end-of-input token. -/
def afterEof (s : TokenStream) : TokenStream :=
  { s with tokens := (s.tokens.dropWhile (·.kind ≠ .eof)).tail }

@[simp] theorem head_nil (p : Position) : head ⟨[], p⟩ = Token.eof p := rfl

@[simp] theorem head_cons (t : Token) (ts : List Token) (p : Position) :
    head ⟨t :: ts, p⟩ = t := rfl

@[simp] theorem tail_nil (p : Position) : tail ⟨[], p⟩ = ⟨[], p⟩ := rfl

@[simp] theorem tail_cons (t : Token) (ts : List Token) (p : Position) :
    tail ⟨t :: ts, p⟩ = ⟨ts, p⟩ := rfl

@[simp] theorem ending_tail (s : TokenStream) : s.tail.ending = s.ending := rfl

@[simp] theorem tokens_tail (s : TokenStream) : s.tail.tokens = s.tokens.tail := rfl

@[simp] theorem ending_afterEof (s : TokenStream) : s.afterEof.ending = s.ending := rfl

end TokenStream

end LetLang
