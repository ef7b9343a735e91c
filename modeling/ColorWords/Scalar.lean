/-!
# Scalars

The numbers that color channels are made of, given by their operations alone. Every
algorithm of the library is written over these classes, so that one definition runs on
64-bit floats and can also be read over the rationals, the reals or any rounded
arithmetic. Nothing here assumes a law: comparisons may fail in both directions, as they
do for a float that is not a number.

`Scalar` is plain arithmetic and comparison. `Elementary` holds the functions that leave
the rational numbers. `Numeral` connects scalars with integers and with decimal text.
-/

namespace ColorWords

/-- Arithmetic, decimal constants and comparisons of channel values.

`multiplyAdd x y z` is `x * y + z` in one operation, so that arithmetic which rounds does it once.
`totalCompare` orders all values, also those that `<` and `≤` leave apart, and
`belowInfinity` tells whether a value is less than an infinite one. -/
class Scalar (α : Type) extends Add α, Sub α, Mul α, Div α, Neg α, LT α, LE α,
    OfScientific α where
  multiplyAdd : α → α → α → α
  decideLt : DecidableLT α
  decideLe : DecidableLE α
  totalCompare : α → α → Ordering
  belowInfinity : α → Bool

-- Types with operations of their own keep using these directly.
attribute [instance (low)] Scalar.toAdd Scalar.toSub Scalar.toMul Scalar.toDiv
  Scalar.toNeg Scalar.toLT Scalar.toLE Scalar.toOfScientific

instance (priority := low) Scalar.instDecidableLT {α : Type} [Scalar α] : DecidableLT α :=
  Scalar.decideLt

instance (priority := low) Scalar.instDecidableLE {α : Type} [Scalar α] : DecidableLE α :=
  Scalar.decideLe

/-- Roots, powers and angles. Angles are in degrees, and `bearing b a` is the angle of the
point with abscissa `a` and ordinate `b`, between -180 and 180. -/
class Elementary (α : Type) where
  squareRoot : α → α
  cubeRoot : α → α
  power : α → α → α
  euclidean : α → α → α
  bearing : α → α → α
  cosine : α → α
  sine : α → α

/-- Integers near a scalar, and its decimal text.

`round` goes to the nearest integer, halves away from zero; `toNat` is the integer part of
a nonnegative value. `write` uses the fewest digits that identify the value and never an
exponent, and `read?` recognizes decimal literals. -/
class Numeral (α : Type) where
  round : α → α
  toNat : α → Nat
  write : α → List Char
  read? : List Char → Option α

namespace Scalar

variable {α : Type} [Scalar α]

/-- The scalar nearest to a natural number. -/
@[inline] def ofNat (n : Nat) : α := OfScientific.ofScientific n false 0

/-- The scalar nearest to a number of hundredths. -/
def ofPercent : Int → α
  | .ofNat n => OfScientific.ofScientific n true 2
  | .negSucc n => -OfScientific.ofScientific (n + 1) true 2

/-- Only a value that is a number compares with itself. -/
@[inline] def isNumber (x : α) : Bool := decide (x ≤ x)

/-- Equality as far as comparisons can tell. -/
@[inline] def same (x y : α) : Bool := decide (x ≤ y) && decide (y ≤ x)

/-- Equality under the total order, which also tells the two zeros apart. -/
def identical (x y : α) : Bool := totalCompare x y == .eq

/-- Replace what is not a number by zero. -/
@[inline] def numberOrZero (x : α) : α := if x ≤ x then x else 0.0

/-- The absolute value. -/
@[inline] def magnitude (x : α) : α := if x < 0.0 then -x else x

/-- Give `value` the sign of `x`. -/
@[inline] def withSignOf (x value : α) : α := if x < 0.0 then -value else value

/-- Limit to the range from `low` to `high`; incomparable values stay. -/
@[inline] def clamp (low high x : α) : α := if x < low then low else if high < x then high else x

/-- Limit to `0..1`, with zero for what is not a number. -/
@[inline] def unit (x : α) : α := clamp 0.0 1.0 (numberOrZero x)

/-- Multiply `result` by the power `base ^ n`, squaring the base once per binary digit. -/
def timesPower (result base : α) (n : Nat) : Nat → α
  | 0 => result
  | fuel + 1 =>
    let result := if n % 2 = 1 then result * base else result
    if n / 2 = 0 then result else timesPower result (base * base) (n / 2) fuel

/-- The power with a natural exponent, by repeated squaring from the low digit up. -/
def powNat (base : α) (n : Nat) : α := timesPower 1.0 base n (n + 1)

end Scalar

end ColorWords
