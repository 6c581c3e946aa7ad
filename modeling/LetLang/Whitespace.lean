import LetLang.CodePoints

/-!
# White space around a line

The characters with the Unicode property `White_Space`, and trimming a line by
them.  They are more than the blanks between tokens.
-/

namespace LetLang

/-- The code points with the property `White_Space`. -/
def whitespace : CodePoints :=
  [(0x9, 0xd), (0x20, 0x20), (0x85, 0x85), (0xa0, 0xa0), (0x1680, 0x1680),
    (0x2000, 0x200a), (0x2028, 0x2029), (0x202f, 0x202f), (0x205f, 0x205f),
    (0x3000, 0x3000)]

/-- Whether a character has the property `White_Space`. -/
def isWhitespace (c : Char) : Bool :=
  whitespace.contains c.toNat

/-- A text without the white space at its end. -/
def trimEnd (text : List Char) : List Char :=
  (text.reverse.dropWhile isWhitespace).reverse

/-- A text without the white space at its start and at its end. -/
def trim (text : String) : String :=
  String.ofList (trimEnd (text.toList.dropWhile isWhitespace))

end LetLang
