/-!
# Double-precision numbers as words

A number literal is a 64-bit word: one sign bit, eleven exponent bits, fifty-two fraction bits.  No
runtime floating-point operation is used.  A finite word stands for a whole number of *units*, the
unit being `2 ^ -1074`, the smallest positive magnitude; so every finite magnitude is a natural
number and all arithmetic on magnitudes is exact.

* `Binary64.units` : the magnitude of a finite word.
* `Binary64.ofUnits` : the word of a magnitude that fits, infinity for one that is too large.
-/

namespace TemplateContracts

/-- A double-precision number, given by its bits. -/
structure Binary64 where
  /-- The word: sign, exponent and fraction fields. -/
  bits : UInt64
  deriving DecidableEq, Repr, Inhabited

namespace Binary64

/-- The number of units in one: `2 ^ 1074`. -/
def one : Nat := Nat.pow 2 1074

/-- The place value of the sign bit. -/
def signBit : Nat := Nat.pow 2 63

/-- The place value of the bit above the fraction field. -/
def leadingBit : Nat := Nat.pow 2 52

/-- The sign bit. -/
def isNegative (x : Binary64) : Bool := signBit ≤ x.bits.toNat

/-- The eleven exponent bits. -/
def exponentField (x : Binary64) : Nat := x.bits.toNat / leadingBit % 2048

/-- The fifty-two fraction bits. -/
def fractionField (x : Binary64) : Nat := x.bits.toNat % leadingBit

/-- Neither an infinity nor a NaN. -/
def isFinite (x : Binary64) : Bool := x.exponentField != 2047

/-- All exponent bits set and a fraction that is not zero. -/
def isNaN (x : Binary64) : Bool := x.exponentField == 2047 && x.fractionField != 0

/-- The magnitude of a finite word, in units. -/
def units (x : Binary64) : Nat :=
  if x.exponentField = 0 then x.fractionField
  else (leadingBit + x.fractionField) * Nat.pow 2 (x.exponentField - 1)

/-- The word with the given sign, exponent and fraction fields. -/
def ofFields (negative : Bool) (exponent fraction : Nat) : Binary64 :=
  ⟨UInt64.ofNat ((if negative then signBit else 0) + exponent * leadingBit + fraction)⟩

/-- Positive or negative infinity. -/
def infinity (negative : Bool) : Binary64 := ofFields negative 2047 0

/-- The quiet NaN. -/
def nan : Binary64 := ofFields false 2047 (Nat.pow 2 51)

/-- How far the leading bit of a magnitude stands above the fraction field. -/
def shift (u : Nat) : Nat := Nat.log2 u - 52

/-- The word of a magnitude with at most fifty-three significant bits; infinity beyond the range. -/
def ofUnits (negative : Bool) (u : Nat) : Binary64 :=
  if u < leadingBit then ofFields negative 0 u
  else if 2046 ≤ shift u then infinity negative
  else ofFields negative (shift u + 1) (u / Nat.pow 2 (shift u) - leadingBit)

/-- Zero, of either sign. -/
def isZero (x : Binary64) : Bool := x.isFinite && x.units == 0

/-- A finite number without a fractional part. -/
def isIntegral (x : Binary64) : Bool := x.isFinite && x.units % one == 0

/-- The same number with the other sign. -/
def negate (x : Binary64) : Binary64 := ⟨x.bits ^^^ 0x8000000000000000⟩

/-- The integer nearest to zero's side of a finite number, kept within sixty-four signed bits. -/
def toInt64Clamped (x : Binary64) : Int :=
  let whole : Int := x.units / one
  if x.isNegative then max Int64.minValue.toInt (-whole) else min Int64.maxValue.toInt whole

/-- The sixteen hexadecimal digits of the word. -/
def hex (x : Binary64) : String :=
  let digits := Nat.toDigits 16 x.bits.toNat
  String.ofList (List.replicate (16 - digits.length) '0' ++ digits)

end Binary64

end TemplateContracts
