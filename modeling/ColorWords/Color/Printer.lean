import ColorWords.Color

/-!
# Writing colors

The functional notation with a given number of decimals, the hexadecimal notation, and the
full notation that shows every digit of the channels.
-/

namespace ColorWords

open Scalar

namespace Color

variable {α : Type} [Scalar α] [Numeral α]

/-- The number of decimals unless another is asked for. -/
def defaultPrecision : Nat := 5

/-- Round to multiples of `1 / factor`, halves away from zero and without a negative zero. -/
def roundTo (factor x : α) : α :=
  let rounded := Numeral.round (numberOrZero x * factor) / factor
  if same rounded 0.0 then 0.0 else rounded

/-- Write a channel in multiples of `1 / factor`. -/
def writeChannel (factor x : α) : List Char := Numeral.write (roundTo factor x)

/-- Write a color with the given number of decimals. Alpha is left out if it is one. The number of
decimals that a caller asks for has 16 bits, so it is far from the limit of 32 bits for powers. -/
def write (precision : Nat) (c : Color α) : List Char :=
  let factor := powNat 10.0 precision
  "oklab(".toList ++ writeChannel factor c.lab.lightness ++ ' ' :: writeChannel factor c.lab.a ++
    ' ' :: writeChannel factor c.lab.b ++
    (if same c.alpha 1.0 then [] else " / ".toList ++ writeChannel factor c.alpha) ++ [')']

/-- The text of a color. -/
def text (c : Color α) : String := String.ofList (c.write defaultPrecision)

/-- The text of a color with all digits of every channel. -/
def fullText (c : Color α) : String :=
  String.ofList <| "Color([".toList ++ Numeral.write c.lab.lightness ++ ", ".toList ++
    Numeral.write c.lab.a ++ ", ".toList ++ Numeral.write c.lab.b ++ "], ".toList ++
    Numeral.write c.alpha ++ [')']

/-- Two lowercase hexadecimal digits. -/
def hexByte (byte : UInt8) : List Char :=
  [Nat.digitChar (byte.toNat / 16), Nat.digitChar (byte.toNat % 16)]

/-- Write 8 bits per channel in hashed notation. -/
def writeHashed (c : RGB UInt8) : List Char :=
  '#' :: (hexByte c.red ++ hexByte c.green ++ hexByte c.blue)

/-- The hashed hexadecimal notation of a color, mapped into the gamut first. -/
def hexText [ColorModel α] [GamutMap α] (c : Color α) : String :=
  String.ofList (writeHashed c.toBytes)

end Color

end ColorWords
