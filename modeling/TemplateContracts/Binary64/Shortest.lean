import TemplateContracts.Binary64.Basic

/-!
# The shortest decimal that reads back

`shortest` gives the fewest significant digits of a decimal that lies among the reals nearest to a
finite double; of two such decimals it takes the nearer, and `tie` says which of two equally near
ones.  `Layout` says how the digits are set: which decimal exponents are written positionally, and
how an exponent is written otherwise.
-/

namespace TemplateContracts.Binary64

/-- Where an exact tie between two decimals goes. -/
inductive Tie where
  /-- To the one whose last digit is even. -/
  | toEven
  /-- To the larger one. -/
  | up
  deriving DecidableEq, Repr

/-- Digits `d₁ d₂ … dₙ`, read as `d₁.d₂…dₙ × 10 ^ exponent`. -/
structure Digits where
  /-- The significant digits as one number. -/
  significand : Nat
  /-- The power of ten of the first digit. -/
  exponent : Int
  deriving DecidableEq, Repr

/-- The magnitudes that round to a finite double, counted in quarter units. -/
structure Neighbourhood where
  low : Nat
  value : Nat
  high : Nat
  /-- Whether the ends belong to it. -/
  closed : Bool

/-- The reals that round to the magnitude `u`. -/
def neighbourhood (u : Nat) : Neighbourhood :=
  let s := shift u
  let m := u / Nat.pow 2 s
  let below := if m = leadingBit ∧ 0 < s then Nat.pow 2 s else Nat.pow 2 (s + 1)
  { low := 4 * u - below, value := 4 * u, high := 4 * u + Nat.pow 2 (s + 1), closed := m % 2 = 0 }

/-- Whether `num / den` quarter units lie in the neighbourhood. -/
def Neighbourhood.contains (i : Neighbourhood) (num den : Nat) : Bool :=
  if i.closed then i.low * den ≤ num && num ≤ i.high * den
  else i.low * den < num && num < i.high * den

/-- The number of quarter units in one. -/
def quarters : Nat := 4 * one

/-- The largest `e` with `10 ^ e ≤ value`, for a positive magnitude in quarter units. -/
def leadingExponent (value : Nat) : Int :=
  if quarters ≤ value then ((Nat.toDigits 10 (value / quarters)).length : Int) - 1
  else
    -- `10 ^ k * value` reaches one for the first time at the leading place
    let bound := quarters / value
    let k := (Nat.toDigits 10 bound).length
    if quarters ≤ value * Nat.pow 10 (k - 1) then -((k - 1 : Nat) : Int) else -(k : Int)

/-- A power of ten as a quotient. -/
def powerQuotient (e : Int) : Nat × Nat :=
  if 0 ≤ e then (Nat.pow 10 e.toNat, 1) else (1, Nat.pow 10 (-e).toNat)

/-- The decimal with `n` digits nearest to the value, if it or its neighbour reads back. -/
def candidate (tie : Tie) (i : Neighbourhood) (lead : Int) (n : Nat) : Option Nat :=
  let (num, den) := powerQuotient (lead + 1 - n)
  -- one step of the grid is `num * quarters / den` quarter units
  let step := num * quarters
  let d := i.value * den / step
  let rest := i.value * den % step
  let lower := i.contains (d * step) den
  let upper := i.contains ((d + 1) * step) den
  match lower, upper with
  | false, false => none
  | true, false => some d
  | false, true => some (d + 1)
  | true, true =>
    if 2 * rest < step then some d
    else if step < 2 * rest then some (d + 1)
    else match tie with
      | .up => some (d + 1)
      | .toEven => if d % 2 = 0 then some d else some (d + 1)

/-- The first digit count from `n` on, within `fuel` trials, that has a reading decimal. -/
def search (tie : Tie) (i : Neighbourhood) (lead : Int) : (fuel n : Nat) → Nat × Nat
  | 0, n => (0, n)
  | fuel + 1, n =>
    match candidate tie i lead n with
    | some d => (d, n)
    | none => search tie i lead fuel (n + 1)

/-- The shortest digits of a magnitude in units; zero has the digit `0`. -/
def shortest (tie : Tie) (u : Nat) : Digits :=
  if u = 0 then ⟨0, 0⟩
  else
    let i := neighbourhood u
    let lead := leadingExponent i.value
    let (d, n) := search tie i lead 17 1
    if d = Nat.pow 10 n then ⟨1, lead + 1⟩ else ⟨d, lead⟩

/-- How the digits of a double are set. -/
structure Layout where
  /-- The smallest and largest exponents that are written positionally. -/
  positional : Option (Int × Int)
  /-- Whether a whole number keeps one decimal place. -/
  keepPlace : Bool
  tie : Tie
  /-- The texts of a NaN and of infinity without its sign. -/
  nan : String
  infinity : String

/-- Digits written positionally. -/
def positionalText (keepPlace : Bool) (digits : List Char) (exponent : Int) : List Char :=
  if exponent < 0 then
    ['0', '.'] ++ List.replicate ((-exponent).toNat - 1) '0' ++ digits
  else
    let whole := exponent.toNat + 1
    if digits.length ≤ whole then
      digits ++ List.replicate (whole - digits.length) '0' ++ (if keepPlace then ['.', '0'] else [])
    else digits.take whole ++ '.' :: digits.drop whole

/-- Digits written with an exponent, whose sign is always shown. -/
def scientificText (digits : List Char) (exponent : Int) : List Char :=
  let mantissa := match digits with
    | [] => []
    | [d] => [d]
    | d :: ds => d :: '.' :: ds
  let sign := if exponent < 0 then '-' else '+'
  mantissa ++ 'e' :: sign :: Nat.toDigits 10 exponent.natAbs

/-- The text of a finite magnitude. -/
def Layout.magnitude (l : Layout) (u : Nat) : List Char :=
  let s := shortest l.tie u
  let digits := Nat.toDigits 10 s.significand
  match l.positional with
  | none => positionalText l.keepPlace digits s.exponent
  | some (least, greatest) =>
    if least ≤ s.exponent ∧ s.exponent ≤ greatest then
      positionalText l.keepPlace digits s.exponent
    else scientificText digits s.exponent

/-- The text of a double. -/
def Layout.text (l : Layout) (x : Binary64) : List Char :=
  let sign := if x.isNegative then ['-'] else []
  if x.isFinite then sign ++ l.magnitude x.units
  else if x.isNaN then l.nan.toList
  else sign ++ l.infinity.toList

end TemplateContracts.Binary64
