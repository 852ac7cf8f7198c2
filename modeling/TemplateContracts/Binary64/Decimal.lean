import TemplateContracts.Binary64.Rounding

/-!
# Reading decimal numbers

A decimal `digits × 10 ^ exponent` is read in two steps.  The digits are rounded to a double; then
that double is multiplied or divided by a rounded power of ten, the largest single step being
`10 ^ 308`.  Small significands with small exponents are therefore read exactly rounded; others may
be off in the last place.  A result beyond the range has no reading, one below it is zero.
-/

namespace TemplateContracts.Binary64

/-- The largest power of ten used in one step. -/
def maxPower : Nat := 308

/-- A double divided by ten to the power `k`, at most `maxPower` places at a time. -/
def scaleDown (x : Binary64) (k : Nat) : Binary64 :=
  if k ≤ maxPower then x.dividedBy (powerOfTen k)
  else if x.isZero then x
  else scaleDown (x.dividedBy (powerOfTen maxPower)) (k - maxPower)
termination_by k
decreasing_by simp only [maxPower] at *; omega

/-- A double multiplied by ten to the power `k`, if the result is in range. -/
def scaleUp (x : Binary64) (k : Nat) : Option Binary64 :=
  if k ≤ maxPower then
    let y := x.times (powerOfTen k)
    if y.isFinite then some y else none
  else if x.isZero then some x
  else none

/-- The double read for `significand × 10 ^ exponent`. -/
def ofDecimal (negative : Bool) (significand : Nat) (exponent : Int) : Option Binary64 :=
  let x := ofNat significand
  let magnitude :=
    if 0 ≤ exponent then scaleUp x exponent.toNat else some (scaleDown x (-exponent).toNat)
  magnitude.map fun y => if negative then y.negate else y

end TemplateContracts.Binary64
