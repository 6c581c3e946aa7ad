import LetLang.Integer
import Mathlib.Data.List.Induction
import Mathlib.Data.Nat.Digits.Defs

/-!
# Numerals

A numeral is a run of decimal digits of any length, possibly with zeros in front.
Its value is the sum of its digits, each multiplied by the power of ten that belongs
to its place.  A numeral, maybe with a sign in front of it, is the text of a whole
number, and it is read as that number exactly if the number is in range.
-/

namespace LetLang

/-- One or more digits. -/
structure IsNumeral (digits : List Char) : Prop where
  ne_nil : digits ≠ []
  isDigit : ∀ c ∈ digits, c.isDigit = true

/-- The number that digits stand for: the last one counts ones, the one before it
tens, and so on. -/
def Decimal.value (digits : List Char) : Nat :=
  Nat.ofDigits 10 (digits.map fun c => c.toNat - '0'.toNat).reverse

theorem Decimal.ofDigitChars_eq_value (digits : List Char) :
    Nat.ofDigitChars 10 digits 0 = value digits := by
  induction digits using List.reverseRecOn with
  | nil => rfl
  | append_singleton digits c ih =>
      rw [Nat.ofDigitChars_append, ih, Nat.ofDigitChars_cons, Nat.ofDigitChars_nil, value, value,
        List.map_append, List.map_singleton, List.reverse_append, List.reverse_singleton,
        List.singleton_append, Nat.ofDigits_cons, add_comm]

theorem isNumeral_repr (n : Nat) : IsNumeral n.repr.toList := by
  obtain ⟨hne, hdigits, -⟩ := Decimal.read?_eq_some_iff.mp (Decimal.read?_toList_repr n)
  exact ⟨hne, hdigits⟩

theorem Decimal.value_repr (n : Nat) : value n.repr.toList = n := by
  rw [← ofDigitChars_eq_value]
  exact (read?_eq_some_iff.mp (read?_toList_repr n)).2.2

/-- What is read off digits is a numeral with its value. -/
theorem Decimal.isNumeral_of_read?_eq_some
    {digits : List Char} {n : Nat} (h : read? digits = some n) :
    IsNumeral digits ∧ value digits = n := by
  obtain ⟨hne, hdigits, hvalue⟩ := read?_eq_some_iff.mp h
  exact ⟨⟨hne, hdigits⟩, (ofDigitChars_eq_value digits).symm.trans hvalue⟩

namespace IsNumeral

theorem read?_eq {digits : List Char} (h : IsNumeral digits) :
    Decimal.read? digits = some (Decimal.value digits) :=
  Decimal.read?_eq_some_iff.mpr ⟨h.ne_nil, h.isDigit, Decimal.ofDigitChars_eq_value digits⟩

/-- A numeral has no sign, so it is read as it stands. -/
theorem parse?_eq {text : String} (h : IsNumeral text.toList) :
    Integer.parse? text = Integer.ofInt? (Decimal.value text.toList) := by
  unfold Integer.parse?
  split
  · next digits htext =>
    exact absurd (h.isDigit '-' (by simp [htext])) (by decide)
  · next digits htext =>
    exact absurd (h.isDigit '+' (by simp [htext])) (by decide)
  · rw [h.read?_eq, Option.bind_some]

theorem parse?_eq_some
    {text : String} (h : IsNumeral text.toList) {n : Integer}
    (hn : n.toInt = Decimal.value text.toList) : Integer.parse? text = some n := by
  rw [h.parse?_eq, Integer.ofInt?_eq_some_iff, hn]

theorem parse?_eq_none
    {text : String} (h : IsNumeral text.toList)
    (hrange : ¬Integer.InRange (Decimal.value text.toList)) : Integer.parse? text = none := by
  rw [h.parse?_eq, Integer.ofInt?_eq_none_iff]
  exact hrange

end IsNumeral

/-- The text of a whole number: a numeral, with a sign in front of it or without one. -/
inductive Grammar.Writes : List Char → Int → Prop
  | unsigned {digits : List Char} (hdigits : IsNumeral digits) :
      Writes digits (Decimal.value digits)
  | plus {digits : List Char} (hdigits : IsNumeral digits) :
      Writes ('+' :: digits) (Decimal.value digits)
  | minus {digits : List Char} (hdigits : IsNumeral digits) :
      Writes ('-' :: digits) (-Decimal.value digits)

open Grammar

theorem Grammar.writes_of_parse?_eq_some
    {text : String} {v : Integer} (h : Integer.parse? text = some v) :
    Writes text.toList v.toInt := by
  unfold Integer.parse? at h
  -- Whatever sign the text has, what comes behind it is read as digits.
  split at h
  all_goals
    obtain ⟨n, hread, hv⟩ := Option.bind_eq_some_iff.mp h
    obtain ⟨hdigits, rfl⟩ := Decimal.isNumeral_of_read?_eq_some hread
    rw [Integer.ofInt?_eq_some_iff.mp hv]
  · next htext => exact htext ▸ .minus hdigits
  · next htext => exact htext ▸ .plus hdigits
  · exact .unsigned hdigits

theorem Grammar.Writes.parse?_eq_some
    {text : String} {v : Integer} (h : Writes text.toList v.toInt) :
    Integer.parse? text = some v := by
  generalize htext : text.toList = chars at h
  generalize hv : v.toInt = value at h
  cases h with
  | unsigned hdigits =>
      subst htext
      exact hdigits.parse?_eq_some hv
  | plus hdigits =>
      unfold Integer.parse?
      rw [htext]
      change (Decimal.read? _).bind _ = some v
      rw [hdigits.read?_eq, Option.bind_some, Integer.ofInt?_eq_some_iff, hv]
  | minus hdigits =>
      unfold Integer.parse?
      rw [htext]
      change (Decimal.read? _).bind _ = some v
      rw [hdigits.read?_eq, Option.bind_some, Integer.ofInt?_eq_some_iff, hv]

end LetLang
