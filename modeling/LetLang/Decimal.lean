/-!
# Decimal text

Natural numbers as they are written in decimal digits.  Writing is `Nat.repr`;
this module holds the reading side, shared by integer literals and by the
numeric option of the command line.
-/

namespace LetLang.Decimal

/-- The number written by a non-empty run of the digits `0` to `9`; leading
zeros are allowed and there is no upper bound. -/
def read? (digits : List Char) : Option Nat :=
  if digits ≠ [] ∧ digits.all Char.isDigit then
    some (Nat.ofDigitChars 10 digits 0)
  else
    none

/-- Reading succeeds exactly on non-empty runs of digits, with their value. -/
theorem read?_eq_some_iff {digits : List Char} {n : Nat} :
    read? digits = some n ↔
      digits ≠ [] ∧ (∀ c ∈ digits, c.isDigit) ∧
        Nat.ofDigitChars 10 digits 0 = n := by
  simp only [read?, List.all_eq_true]
  split
  · next h =>
    exact ⟨fun hn => ⟨h.1, h.2, Option.some.inj hn⟩, fun hn => congrArg some hn.2.2⟩
  · next h =>
    exact ⟨nofun, fun hn => absurd ⟨hn.1, hn.2.1⟩ h⟩

/-- Reading the written form of a number gives the number back. -/
theorem read?_toList_repr (n : Nat) : read? n.repr.toList = some n := by
  rw [read?_eq_some_iff, Nat.toList_repr]
  exact ⟨Nat.toDigits_ne_nil,
    fun _ hc => Nat.isDigit_of_mem_toDigits (by decide) (by decide) hc,
    Nat.ofDigitChars_ten_toDigits⟩

end LetLang.Decimal
