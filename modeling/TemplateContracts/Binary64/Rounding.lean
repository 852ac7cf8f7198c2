import TemplateContracts.Binary64.Basic

/-!
# Rounding to the nearest double

One rounding function, `roundUnits`, takes an exact quotient counted in units to the nearest
magnitude with fifty-three significant bits, a half going to the even neighbour.  Conversion from a
natural number, product and quotient are that function applied to the exact result.
-/

namespace TemplateContracts.Binary64

/-- The whole number nearest to `num / den`; a half goes to the even one. -/
def roundHalfEven (num den : Nat) : Nat :=
  let quotient := num / den
  let twice := 2 * (num % den)
  if twice < den then quotient
  else if den < twice then quotient + 1
  else if quotient % 2 = 0 then quotient else quotient + 1

/-- The magnitude, in units, nearest to `num / den` units. -/
def roundUnits (num den : Nat) : Nat :=
  let s := shift (num / den)
  roundHalfEven num (den * Nat.pow 2 s) * Nat.pow 2 s

/-- The double nearest to `num / den` units, with the given sign. -/
def ofQuotient (negative : Bool) (num den : Nat) : Binary64 :=
  ofUnits negative (roundUnits num den)

/-- The double nearest to a natural number. -/
def ofNat (n : Nat) : Binary64 := ofQuotient false (n * one) 1

/-- The double nearest to an integer. -/
def ofInt (i : Int) : Binary64 := ofQuotient (i < 0) (i.natAbs * one) 1

/-- The double nearest to ten to the power `k`. -/
def powerOfTen (k : Nat) : Binary64 := ofNat (Nat.pow 10 k)

/-- The rounded product of two finite doubles that are not negative. -/
def times (x y : Binary64) : Binary64 := ofQuotient false (x.units * y.units) one

/-- The rounded quotient of a finite double by a positive one. -/
def dividedBy (x y : Binary64) : Binary64 := ofQuotient false (x.units * one) y.units

end TemplateContracts.Binary64
