import LetLang.Token.Stream

/-!
# From text to tokens

A text is cut into lexemes from left to right, each as long as possible, with
blanks between them dropped.  The scan walks the text one character at a time
and carries along how many characters still belong to the lexeme it has just
produced, so it is a recursion on the text itself.
-/

namespace LetLang

/-- The characters between lexemes: space, tab, carriage return, form feed and
line feed. -/
def isBlank (c : Char) : Bool :=
  c == ' ' || c == '\t' || c == '\r' || c == '\x0c' || c == '\n'

/-- The characters a word can start with: a letter or an underscore, in ASCII. -/
def isWordStart (c : Char) : Bool :=
  c.isAlpha || c == '_'

/-- The characters a word can go on with: also digits. -/
def isWordChar (c : Char) : Bool :=
  c.isAlphanum || c == '_'

/-- The first lexeme of a text: its kind, and its characters after the first. -/
structure Lexeme where
  /-- What sort of lexeme this is. -/
  kind : TokenKind
  /-- The first character. -/
  head : Char
  /-- The other characters. -/
  tail : List Char
deriving DecidableEq, Repr

namespace Lexeme

/-- The source text of a lexeme. -/
def literal (l : Lexeme) : String :=
  String.ofList (l.head :: l.tail)

/-- The kind of an operator or delimiter of one character. -/
def symbol? : Char → Option TokenKind
  | '=' => some .assign
  | '+' => some .plus
  | '-' => some .minus
  | '!' => some .bang
  | '*' => some .asterisk
  | '/' => some .slash
  | '>' => some .gt
  | '<' => some .lt
  | ',' => some .comma
  | ';' => some .semicolon
  | '(' => some .lparen
  | ')' => some .rparen
  | '\x7b' => some .lbrace
  | '\x7d' => some .rbrace
  | _ => none

/-- The lexeme at the start of the text `c :: rest`, where `c` is not a blank:
the longest word or number, an operator of two characters before one of a
single character, and otherwise the character alone as an illegal token. -/
def first (c : Char) (rest : List Char) : Lexeme :=
  if isWordStart c then
    let tail := rest.takeWhile isWordChar
    ⟨.ofWord (String.ofList (c :: tail)), c, tail⟩
  else if c.isDigit then
    ⟨.int, c, rest.takeWhile Char.isDigit⟩
  else if c = '=' ∧ rest.head? = some '=' then
    ⟨.eq, c, ['=']⟩
  else if c = '!' ∧ rest.head? = some '=' then
    ⟨.notEq, c, ['=']⟩
  else
    ⟨(symbol? c).getD .illegal, c, []⟩

/-- A lexeme is a piece of the text it was found in. -/
theorem tail_first_prefixOf (c : Char) (rest : List Char) :
    (first c rest).tail <+: rest := by
  have hhead : rest.head? = some '=' → ['='] <+: rest := by
    cases rest <;> simp [eq_comm]
  simp only [first]
  split
  · exact List.takeWhile_prefix _
  split
  · exact List.takeWhile_prefix _
  split
  · next h => exact hhead h.2
  split
  · next h => exact hhead h.2
  · exact List.nil_prefix

end Lexeme

/-- The tokens of a text that starts at a given place, where the first `busy`
characters belong to a lexeme that is already done. -/
def scan : (busy : Nat) → Position → List Char → List Token
  | _, _, [] => []
  | busy + 1, p, c :: rest => scan busy (p.after c) rest
  | 0, p, c :: rest =>
      if isBlank c then
        scan 0 (p.after c) rest
      else
        let l := Lexeme.first c rest
        ⟨l.kind, l.literal, p⟩ :: scan l.tail.length (p.after c) rest

/-- Characters of a finished lexeme are passed over. -/
theorem scan_length_append (p : Position) (done rest : List Char) :
    scan done.length p (done ++ rest) = scan 0 (p.afterAll done) rest := by
  induction done generalizing p with
  | nil => rfl
  | cons c done ih => exact ih (p.after c)

namespace TokenStream

/-- The tokens of a source text, ending right behind its last character. -/
def ofSource (source : String) : TokenStream :=
  ⟨scan 0 .start source.toList, Position.start.afterAll source.toList⟩

end TokenStream

end LetLang
