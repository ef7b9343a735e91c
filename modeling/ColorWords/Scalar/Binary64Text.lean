import ColorWords.Scalar.Binary64
import ColorWords.Decimal.Shortest
import ColorWords.Decimal.Literal

/-!
# The decimal text of floats

A float is written with the fewest digits that read back as the same float, positionally,
and read as the float nearest to the literal.
-/

namespace ColorWords

namespace Binary64

/-- The reals that round to a finite nonzero magnitude. The gap below a power of two is half
as wide as the gap above, and the ends belong to an even significand. -/
def interval (x : Float) : Interval :=
  let quarter := Nat.pow 2 (scale x)
  let below := if fractionField x = 0 ∧ 1 < exponentField x then 1 else 2
  { low := (4 * significand x - below) * quarter
    value := 4 * significand x * quarter
    high := (4 * significand x + 2) * quarter
    denominator := Nat.pow 2 1076
    closed := significand x % 2 == 0 }

/-- A power of ten above a finite nonzero magnitude, from its binary length. -/
def coarsestGrid (x : Float) : Int :=
  ((Nat.log2 (significand x) + 1 + scale x : Nat) - 1074 : Int) * 30103 / 100000 + 1

/-- The number of grids to try, enough for seventeen digits. -/
def maxGrids : Nat := 20

/-- The shortest decimal that reads back as the magnitude of a finite float. -/
def shortest (x : Float) : Decimal :=
  if significand x = 0 then ⟨0, 0⟩ else (interval x).shortestFrom maxGrids (coarsestGrid x)

/-- Write a float. Negative zero keeps its sign. -/
def write (x : Float) : List Char :=
  let magnitude :=
    if isFinite x then (shortest x).write
    else if fractionField x = 0 then "inf".toList
    else "NaN".toList
  if isNegative x && x == x then '-' :: magnitude else magnitude

/-- The float nearest to a decimal. Decimals beyond the range become infinite or zero without
being expanded. -/
def ofDecimal (d : Decimal) : Float :=
  let length := (d.digits.length : Int) + d.exponent
  if d.coefficient = 0 ∨ length < -330 then 0.0
  else if 310 < length then 1.0 / 0.0
  else Float.ofScientific d.coefficient (decide (d.exponent < 0)) d.exponent.natAbs

/-- The float nearest to a literal. -/
def ofLiteral : Literal → Float
  | .finite d => ofDecimal d
  | .infinite => 1.0 / 0.0
  | .notANumber => 0.0 / 0.0

/-- Read a float. -/
def read? (text : List Char) : Option Float :=
  (Literal.read? text).map fun (negative, literal) =>
    if negative then -ofLiteral literal else ofLiteral literal

end Binary64

instance : Numeral Float where
  round := Binary64.round
  toNat := Binary64.toNat
  write := Binary64.write
  read? := Binary64.read?

end ColorWords
