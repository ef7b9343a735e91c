/-!
# Decimals

A coefficient with a power of ten, and its positional text, which never has an exponent.
-/

namespace ColorWords

/-- The number `coefficient * 10 ^ exponent`. -/
structure Decimal where
  coefficient : Nat
  exponent : Int
deriving DecidableEq

namespace Decimal

/-- The digits of the coefficient, at least one. -/
def digits (d : Decimal) : List Char := Nat.toDigits 10 d.coefficient

/-- The positional text: zeros fill up an integer, and a fraction has a digit before the point. -/
def write (d : Decimal) : List Char :=
  if 0 ≤ d.exponent then d.digits ++ List.replicate d.exponent.toNat '0'
  else
    let places := (-d.exponent).toNat
    let padded := List.replicate (places + 1 - d.digits.length) '0' ++ d.digits
    padded.take (padded.length - places) ++ '.' :: padded.drop (padded.length - places)

end Decimal

end ColorWords
