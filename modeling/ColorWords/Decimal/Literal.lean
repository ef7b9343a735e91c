import ColorWords.Decimal

/-!
# Decimal literals

The grammar of number literals: an optional sign, then digits with an optional point and an
optional exponent, or the words for infinity and for what is not a number in any case.
-/

namespace ColorWords

/-- A literal, apart from its sign. -/
inductive Literal where
  | finite (decimal : Decimal)
  | infinite
  | notANumber
deriving DecidableEq

namespace Literal

/-- The number that a list of decimal digits denotes. -/
def naturalOf (digits : List Char) : Nat :=
  digits.foldl (fun n c => 10 * n + (c.toNat - '0'.toNat)) 0

/-- Read an optional sign, which is negative only for a minus. -/
def readSign : List Char → Bool × List Char
  | '-' :: rest => (true, rest)
  | '+' :: rest => (false, rest)
  | rest => (false, rest)

/-- Read the digits of an integer or of an exponent. -/
def readNatural? (text : List Char) : Option Nat :=
  if !text.isEmpty && text.all Char.isDigit then some (naturalOf text) else none

/-- Read what follows the significand, which is nothing or an exponent. -/
def readExponent? : List Char → Option Int
  | [] => some 0
  | c :: rest =>
    if c = 'e' ∨ c = 'E' then
      let (negative, digits) := readSign rest
      (readNatural? digits).map fun n => if negative then -(n : Int) else n
    else none

/-- Read an unsigned decimal. The significand has a digit before or after its point. -/
def readDecimal? (text : List Char) : Option Decimal :=
  let whole := text.takeWhile Char.isDigit
  let rest := text.dropWhile Char.isDigit
  let (places, rest) :=
    match rest with
    | '.' :: rest => (rest.takeWhile Char.isDigit, rest.dropWhile Char.isDigit)
    | rest => ([], rest)
  if whole.isEmpty && places.isEmpty then none
  else
    (readExponent? rest).map fun exponent =>
      ⟨naturalOf (whole ++ places), exponent - places.length⟩

/-- Read an unsigned literal. -/
def readUnsigned? (text : List Char) : Option Literal :=
  let word := text.map Char.toLower
  if word = "inf".toList ∨ word = "infinity".toList then some .infinite
  else if word = "nan".toList then some .notANumber
  else (readDecimal? text).map .finite

/-- Read a literal and whether it has a minus sign. -/
def read? (text : List Char) : Option (Bool × Literal) :=
  let (negative, rest) := readSign text
  (readUnsigned? rest).map fun literal => (negative, literal)

end Literal

end ColorWords
