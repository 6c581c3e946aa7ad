import LetLang.Token.Position

/-!
# Tokens

The closed set of token kinds, the names under which diagnostics mention them,
the reserved words, and tokens as a kind with its source text and position.
-/

namespace LetLang

/-- What sort of lexeme a token is. -/
inductive TokenKind where
  /-- The end of the input. -/
  | eof
  /-- A character that belongs to no other kind. -/
  | illegal
  /-- A name. -/
  | ident
  /-- An integer literal. -/
  | int
  | assign
  | eq
  | notEq
  | plus
  | minus
  | bang
  | asterisk
  | slash
  | gt
  | lt
  | comma
  | semicolon
  | lparen
  | rparen
  | lbrace
  | rbrace
  /-- The word `fn`, which is reserved and starts nothing. -/
  | fnWord
  | letWord
  | trueWord
  | falseWord
  | ifWord
  | elseWord
  | returnWord
deriving DecidableEq, Repr

namespace TokenKind

/-- All kinds, in their fixed order. -/
def all : List TokenKind :=
  [.eof, .illegal, .ident, .int, .assign, .eq, .notEq, .plus, .minus, .bang,
    .asterisk, .slash, .gt, .lt, .comma, .semicolon, .lparen, .rparen, .lbrace,
    .rbrace, .fnWord, .letWord, .trueWord, .falseWord, .ifWord, .elseWord,
    .returnWord]

theorem mem_all (kind : TokenKind) : kind ∈ all := by
  cases kind <;> decide

/-- The name of a kind in diagnostics. -/
def name : TokenKind → String
  | eof => "EOF"
  | illegal => "ILLEGAL"
  | ident => "IDENT"
  | int => "INT"
  | assign => "="
  | eq => "=="
  | notEq => "!="
  | plus => "+"
  | minus => "-"
  | bang => "!"
  | asterisk => "*"
  | slash => "/"
  | gt => ">"
  | lt => "<"
  | comma => ","
  | semicolon => ";"
  | lparen => "("
  | rparen => ")"
  | lbrace => "\x7b"
  | rbrace => "\x7d"
  | fnWord => "FUNCTION"
  | letWord => "LET"
  | trueWord => "TRUE"
  | falseWord => "FALSE"
  | ifWord => "IF"
  | elseWord => "ELSE"
  | returnWord => "RETURN"

/-- The reserved words with their kinds. -/
def keywords : List (String × TokenKind) :=
  [("fn", fnWord), ("let", letWord), ("true", trueWord), ("false", falseWord),
    ("if", ifWord), ("else", elseWord), ("return", returnWord)]

/-- The kind of a word: a reserved word has its own kind, and every other word
is a name. -/
def ofWord (word : String) : TokenKind :=
  (keywords.lookup word).getD ident

end TokenKind

/-- A lexeme with its kind and the place of its first character. -/
structure Token where
  /-- What sort of lexeme this is. -/
  kind : TokenKind
  /-- The source text of the lexeme, empty at the end of the input. -/
  literal : String
  /-- Where the lexeme starts. -/
  position : Position
deriving DecidableEq, Repr

namespace Token

/-- The end-of-input marker at a given place. -/
def eof (position : Position) : Token :=
  ⟨.eof, "", position⟩

@[simp] theorem kind_eof (position : Position) : (eof position).kind = .eof := rfl

end Token

end LetLang
