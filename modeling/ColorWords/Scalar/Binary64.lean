import ColorWords.Scalar

/-!
# Binary64 scalars

64-bit floats as scalars. Their fields are read off the bit pattern: the magnitude of a
finite float is `significand x * 2 ^ scale x / 2 ^ 1074`, so rounding to integers and the
total order are exact computations on natural numbers.

A product is added to a float with a single rounding. This is an exact computation on integers as
well, which is only made where the errors of two roundings do not settle the result.
-/

namespace ColorWords

namespace Binary64

open Float.Model Float.Model.UnpackedFloat

/-- The sign, exponent and fraction fields as one number. -/
def bits (x : Float) : Nat := x.toBits.toNat

/-- The weight of the sign bit, `2 ^ 63`. -/
def signUnit : Nat := 0x8000000000000000

/-- The weight of the exponent field, `2 ^ 52`. -/
def exponentUnit : Nat := 0x10000000000000

/-- The sign bit, which negative zero has too. -/
def isNegative (x : Float) : Bool := decide (signUnit ≤ bits x)

/-- The exponent field, from 0 for zeros and subnormals to 2047 for infinities and the rest. -/
def exponentField (x : Float) : Nat := bits x / exponentUnit % 2048

/-- The fraction field. -/
def fractionField (x : Float) : Nat := bits x % exponentUnit

/-- Neither infinite nor not a number. -/
def isFinite (x : Float) : Bool := exponentField x != 2047

/-- The integer significand, with the hidden bit of normal numbers. -/
def significand (x : Float) : Nat :=
  if exponentField x = 0 then fractionField x else fractionField x + exponentUnit

/-- The power of two that scales the significand, counted from the smallest one. -/
def scale (x : Float) : Nat := exponentField x - 1

/-- Attach a sign to an integer magnitude. -/
def signed (negative : Bool) (n : Nat) : Float :=
  if negative then -Float.ofNat n else Float.ofNat n

/-- The nearest integer, with halves away from zero. The sign stays, also on a zero. -/
def round (x : Float) : Float :=
  if isFinite x && decide (scale x < 1074) then
    let gap := 1074 - scale x
    signed (isNegative x) ((2 * significand x + Nat.pow 2 gap) / Nat.pow 2 (gap + 1))
  else x

/-- The integer part of a finite nonnegative float, and zero for all others. -/
def toNat (x : Float) : Nat :=
  if isFinite x && !isNegative x then significand x * Nat.pow 2 (scale x) / Nat.pow 2 1074
  else 0

/-- The position in the total order, where negative floats come in reverse below all others. -/
def rank (x : Float) : Int :=
  if isNegative x then (signUnit : Int) - 1 - bits x else bits x

/-! ## Multiplying and adding -/

/-- Determine whether the float is one of the two zeros. -/
def isZero (x : Float) : Bool := decide (x ≤ 0.0) && decide (0.0 ≤ x)

/-- The product of two floats and its sum with a third one. The exact number is rounded, unless a
zero or a float that is not finite decides the result. -/
def multiplyAddExact (x y z : Float) : Float :=
  if isZero x || isZero y then x * y + z
  else if isZero z then x * y
  else
    match x.toModel.unpack, y.toModel.unpack, z.toModel.unpack with
    | .finite s m e _, .finite s' n k _, .finite s'' p l _ =>
      let exponent := min (e + k) l
      let product := (s * s').apply (decreaseExponent (m * n) (e + k) exponent).1
      let term := s''.apply (decreaseExponent p l exponent).1
      .ofModel (.pack (normalize Format.binary64 (product + term) exponent .positive))
    | .finite .., .finite .., .infinity _ => z
    | _, _, _ => x * y + z

/-- The exponent field in a word. -/
@[inline] def exponentWord (x : Float) : UInt64 := (x.toBits >>> 52) &&& 0x7ff

/-- The significand of a normal float in a word. -/
@[inline] def significandWord (x : Float) : UInt64 :=
  (x.toBits &&& 0xfffffffffffff) ||| 0x10000000000000

/-- The float is far from both ends of the range, so that products are so too. -/
@[inline] def isModerate (x : Float) : Bool :=
  decide (600 ≤ exponentWord x) && decide (exponentWord x ≤ 1400)

/-- What rounding loses of the product of two moderate floats. The product of the significands and
that of the rounded product differ by so little that the last 64 bits tell the difference. -/
@[inline] def lostProduct (x y product : Float) : Float :=
  let m := significandWord x
  let n := significandWord y
  let places := exponentWord product + 1075 - (exponentWord x + exponentWord y)
  let lost := m * n - (significandWord product <<< places)
  let unit := (x / m.toFloat) * (y / n.toFloat)
  if lost < 0x8000000000000000 then unit * lost.toFloat else -(unit * (0 - lost).toFloat)

/-- What rounding loses of a sum. -/
@[inline] def lostSum (x y sum : Float) : Float :=
  if x.abs < y.abs then (y - sum) + x else (x - sum) + y

/-- A bound of the relative error of a sum, with much to spare. -/
def errorRatio : Float := 9.094947017729282e-13

/-- The product of two floats and its sum with a third one, rounded once. What rounding loses of
product and sum is added to the sum. If this would be rounded as well, both ends of the range of
what it can be have to lead to the same result. -/
def multiplyAdd (x y z : Float) : Float :=
  if isModerate x && isModerate y && isModerate z then
    let product := x * y
    let sum := product + z
    let ofProduct := lostProduct x y product
    let ofSum := lostSum product z sum
    let lost := ofProduct + ofSum
    if isZero (lostSum ofProduct ofSum lost) then sum + lost
    else
      let margin := lost.abs * errorRatio
      let low := sum + (lost - margin)
      let high := sum + (lost + margin)
      if high ≤ low then low else multiplyAddExact x y z
  else multiplyAddExact x y z

end Binary64

instance : Scalar Float where
  multiplyAdd := Binary64.multiplyAdd
  decideLt := inferInstance
  decideLe := inferInstance
  totalCompare x y := compare (Binary64.rank x) (Binary64.rank y)
  belowInfinity x := decide (x < 1.0 / 0.0)

instance : Elementary Float where
  squareRoot := Float.sqrt
  cubeRoot := Float.cbrt
  power := Float.pow
  euclidean x y := Float.sqrt (x * x + y * y)
  bearing b a := Float.atan2 b a * 57.29577951308232
  cosine degrees := Float.cos (degrees * 0.017453292519943295)
  sine degrees := Float.sin (degrees * 0.017453292519943295)

end ColorWords
