/-!
# Sets of code points

The tables of character properties are lists of closed ranges of code points.
-/

namespace LetLang

/-- A set of code points, as closed ranges. -/
abbrev CodePoints := List (Nat × Nat)

namespace CodePoints

/-- Whether a code point lies in one of the ranges. -/
def contains (ranges : CodePoints) (n : Nat) : Bool :=
  ranges.any fun range => range.1 ≤ n && n ≤ range.2

end CodePoints

end LetLang
