import LetLang.Decimal

/-!
# Integers of the language

The language computes with signed 64-bit integers and never wraps around:
every operation is done on whole numbers first, and its result is an `Integer`
only if it lies in range.
-/

namespace LetLang

/-- The whole numbers from `-2^63` to `2^63 - 1`. -/
def Integer.InRange (n : Int) : Prop :=
  -9223372036854775808 ≤ n ∧ n ≤ 9223372036854775807

instance (n : Int) : Decidable (Integer.InRange n) :=
  inferInstanceAs (Decidable (_ ∧ _))

/-- A whole number that lies in the range of the language's integers. -/
structure Integer where
  /-- The number itself. -/
  toInt : Int
  /-- It lies in range. -/
  inRange : Integer.InRange toInt
deriving DecidableEq

namespace Integer

/-- Integers are equal when they are the same whole number. -/
theorem ext_toInt {a b : Integer} (h : a.toInt = b.toInt) : a = b := by
  cases a
  cases b
  cases h
  rfl

/-- The integer equal to a whole number, if that number is in range. -/
def ofInt? (n : Int) : Option Integer :=
  if h : InRange n then some ⟨n, h⟩ else none

/-- A whole number becomes an integer exactly when it is in range, and then
without change. -/
theorem ofInt?_eq_some_iff {n : Int} {a : Integer} :
    ofInt? n = some a ↔ a.toInt = n := by
  constructor
  · intro h
    simp only [ofInt?] at h
    split at h
    · cases h
      rfl
    · cases h
  · rintro rfl
    simp [ofInt?, a.inRange]

theorem ofInt?_eq_none_iff {n : Int} : ofInt? n = none ↔ ¬ InRange n := by
  simp [ofInt?]

/-- The sum, if it is in range. -/
def add? (a b : Integer) : Option Integer :=
  ofInt? (a.toInt + b.toInt)

/-- The difference, if it is in range. -/
def sub? (a b : Integer) : Option Integer :=
  ofInt? (a.toInt - b.toInt)

/-- The product, if it is in range. -/
def mul? (a b : Integer) : Option Integer :=
  ofInt? (a.toInt * b.toInt)

/-- The quotient rounded toward zero, if it is in range.  The divisor is not
zero where this is used. -/
def div? (a b : Integer) : Option Integer :=
  ofInt? (a.toInt.tdiv b.toInt)

/-- The negation, if it is in range. -/
def neg? (a : Integer) : Option Integer :=
  ofInt? (-a.toInt)

/-- Decimal text, with a minus sign in front of a negative number. -/
def render (a : Integer) : String :=
  a.toInt.repr

theorem render_of_nonneg {a : Integer} (h : 0 ≤ a.toInt) :
    a.render = a.toInt.natAbs.repr := by
  obtain ⟨n, hn⟩ := Int.eq_ofNat_of_zero_le h
  rw [render, hn]
  rfl

theorem render_of_neg {a : Integer} (h : a.toInt < 0) :
    a.render = "-" ++ a.toInt.natAbs.repr := by
  obtain ⟨n, hn⟩ := Int.eq_negSucc_of_lt_zero h
  rw [render, hn]
  rfl

/-- The integer written by a text: an optional sign and then one or more
digits, with a value in range. -/
def parse? (text : String) : Option Integer :=
  match text.toList with
  | '-' :: digits => (Decimal.read? digits).bind fun n => ofInt? (-n)
  | '+' :: digits => (Decimal.read? digits).bind fun n => ofInt? n
  | digits => (Decimal.read? digits).bind fun n => ofInt? n

/-- Reading the rendered text of an integer gives the integer back. -/
theorem parse?_render (a : Integer) : parse? a.render = some a := by
  obtain ⟨n, hn⟩ := a
  cases n with
  | ofNat m =>
    have hread := Decimal.read?_toList_repr m
    have hdigits := (Decimal.read?_eq_some_iff.1 hread).2.1
    unfold parse? render
    rw [show (Int.ofNat m).repr = m.repr from rfl]
    split
    · next digits heq =>
      exact absurd (hdigits '-' (by simp [heq])) (by decide)
    · next digits heq =>
      exact absurd (hdigits '+' (by simp [heq])) (by decide)
    · rw [hread, Option.bind_some, ofInt?_eq_some_iff]
      rfl
  | negSucc m =>
    have htext : (Int.negSucc m).repr.toList = '-' :: (m + 1).repr.toList := by
      rw [show (Int.negSucc m).repr = "-" ++ (m + 1).repr from rfl,
        String.toList_append]
      rfl
    unfold parse? render
    rw [htext]
    change ((Decimal.read? (m + 1).repr.toList).bind fun n => ofInt? (-n)) = _
    rw [Decimal.read?_toList_repr, Option.bind_some, ofInt?_eq_some_iff]
    exact Int.negSucc_eq m

/-- Different integers have different texts. -/
theorem eq_of_render_eq {a b : Integer} (h : a.render = b.render) : a = b := by
  have hparse := parse?_render a
  rw [h, parse?_render] at hparse
  exact (Option.some.inj hparse).symm

end Integer

end LetLang
