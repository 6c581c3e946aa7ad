/-!
# Positions in a source text

A position names a character by its line and by its column on that line, both
counted from one.  Columns count code points.
-/

namespace LetLang

/-- A place in a source text. -/
structure Position where
  /-- The line, counted from one. -/
  line : Nat
  /-- The column on that line, counted from one. -/
  column : Nat
deriving DecidableEq, Repr

namespace Position

/-- The place of the first character of a text. -/
def start : Position :=
  ⟨1, 1⟩

/-- The place right after a character; only a line feed starts a new line. -/
def after (p : Position) (c : Char) : Position :=
  if c = '\n' then ⟨p.line + 1, 1⟩ else ⟨p.line, p.column + 1⟩

/-- The place right after a run of characters. -/
def afterAll (p : Position) (text : List Char) : Position :=
  text.foldl after p

@[simp] theorem afterAll_nil (p : Position) : p.afterAll [] = p := rfl

@[simp] theorem afterAll_cons (p : Position) (c : Char) (text : List Char) :
    p.afterAll (c :: text) = (p.after c).afterAll text := rfl

@[simp] theorem afterAll_append (p : Position) (a b : List Char) :
    p.afterAll (a ++ b) = (p.afterAll a).afterAll b := by
  simp [afterAll, List.foldl_append]

/-- A position as it is shown: the line, a colon and the column. -/
def render (p : Position) : String :=
  p.line.repr ++ ":" ++ p.column.repr

end Position

end LetLang
