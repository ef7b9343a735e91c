import ColorWords.Gamut
import ColorWords.Summation

/-!
# Colors

A color is a point in Oklab with an alpha channel. Every constructor and operation ends in
`Color.make`, which limits all four channels to their ranges, so a color is always well
formed though not always in the sRGB gamut.

Equality and hashing look at the channels with twelve decimals only. Two colors are equal
exactly if their four keys are, and equal colors hash alike.
-/

namespace ColorWords

open Scalar

/-- A color in Oklab with alpha. -/
structure Color (α : Type) where
  lab : Lab α
  alpha : α

namespace Color

variable {α : Type} [Scalar α]

/-- A color from any channel values, each limited to its range. -/
def make (lab : Lab α) (alpha : α) : Color α := ⟨lab.normalized, unit alpha⟩

/-- A color with full alpha. -/
def solid (lab : Lab α) : Color α := make lab 1.0

/-- The neutral color: all channels zero, alpha included. -/
def neutral : Color α := ⟨⟨0.0, 0.0, 0.0⟩, 0.0⟩

instance : Inhabited (Color α) := ⟨neutral⟩

/-- A color with full alpha from sRGB coordinates. -/
def ofRGB [ColorModel α] (c : RGB α) : Color α := solid (ColorModel.ofRGB c)

/-- A color with full alpha from 8 bits per sRGB channel. -/
def ofBytes [ColorModel α] (c : RGB UInt8) : Color α := ofRGB (RGB.ofBytes c)

/-! ## Adjustments -/

/-- Move lightness the given fraction of the way towards white. -/
def lighten (c : Color α) (amount : α) : Color α :=
  make { c.lab with lightness := c.lab.lightness + (1.0 - c.lab.lightness) * unit amount } c.alpha

/-- Move lightness the given fraction of the way towards black. -/
def darken (c : Color α) (amount : α) : Color α :=
  make { c.lab with lightness := c.lab.lightness * (1.0 - unit amount) } c.alpha

/-- Scale both axes, which scales chroma. -/
def scaleChroma (c : Color α) (factor : α) : Color α :=
  make { c.lab with a := c.lab.a * factor, b := c.lab.b * factor } c.alpha

/-- Increase chroma by the given fraction, with negative amounts counting as zero. -/
def enrich (c : Color α) (amount : α) : Color α :=
  c.scaleChroma (1.0 + if 0.0 < amount then amount else 0.0)

/-- Reduce chroma by the given fraction. -/
def dullen (c : Color α) (amount : α) : Color α := c.scaleChroma (1.0 - unit amount)

/-- Replace alpha. -/
def withAlpha (c : Color α) (alpha : α) : Color α := make c.lab alpha

/-- Map into the sRGB gamut, leaving alpha alone. -/
def toGamut [GamutMap α] (c : Color α) : Color α := make (GamutMap.toGamut c.lab) c.alpha

/-- Lighten by a positive amount and darken by a negative one. -/
def shiftLightness (c : Color α) (amount : α) : Color α :=
  if 0.0 < amount then c.lighten amount
  else if amount < 0.0 then c.darken (-amount)
  else c

/-! ## Mixing -/

/-- Running sums of the four channels and the number of colors added. -/
structure Blend (α : Type) where
  lightness : Accumulator α
  a : Accumulator α
  b : Accumulator α
  alpha : Accumulator α
  count : Nat

namespace Blend

/-- The blend of no colors. -/
def zero : Blend α := ⟨.zero, .zero, .zero, .zero, 0⟩

/-- Add a color. -/
def add (blend : Blend α) (c : Color α) : Blend α :=
  ⟨blend.lightness.add c.lab.lightness, blend.a.add c.lab.a, blend.b.add c.lab.b,
    blend.alpha.add c.alpha, blend.count + 1⟩

/-- The mean of each channel, or the neutral color if there is none. -/
def color (blend : Blend α) : Color α :=
  if blend.count = 0 then neutral
  else
    let count : α := ofNat blend.count
    make ⟨blend.lightness.total / count, blend.a.total / count, blend.b.total / count⟩
      (blend.alpha.total / count)

end Blend

/-- Mix colors by averaging each channel, alpha included. -/
def mix (colors : List (Color α)) : Color α := (colors.foldl Blend.add Blend.zero).color

/-! ## Measurements -/

/-- The square of the distance between two colors, which ignores alpha. -/
@[inline] def distanceSquared (c d : Color α) : α := c.lab.distanceSquared d.lab

/-- The difference between two colors, which ignores alpha. -/
def difference [ColorModel α] (c d : Color α) : α := ColorModel.difference c.lab d.lab

/-- The distance from the gray axis. -/
def chroma [Elementary α] (c : Color α) : α := Elementary.euclidean c.lab.a c.lab.b

/-- The hue in degrees, which colors very close to the gray axis do not have. -/
def hue [ColorModel α] (c : Color α) : Option α := (ColorModel.toPolar c.lab).hue

/-- The chroma up to which a color counts as gray. -/
def grayLimit : α := 0.01

/-- Determine whether the color is a gray. -/
def isGray [ColorModel α] (c : Color α) : Bool :=
  let polar := ColorModel.toPolar c.lab
  polar.hue.isNone || decide (polar.chroma ≤ grayLimit)

/-- Determine whether the color is in the sRGB gamut. -/
def inGamut [ColorModel α] (c : Color α) : Bool := (ColorModel.toRGB c.lab).inGamut

/-- The color with 8 bits per sRGB channel, mapped into the gamut first. -/
def toBytes [ColorModel α] [GamutMap α] [Numeral α] (c : Color α) : RGB UInt8 :=
  (ColorModel.toRGB (GamutMap.toGamut c.lab)).toBytes

/-! ## Equality -/

/-- The number of units per scalar that keys distinguish. -/
def keyUnits : α := 1e12

/-- The key of a channel: the channel in units of the last decimal that counts, without a
negative zero. -/
def channelKey [Numeral α] (x : α) : α :=
  let key := Numeral.round (keyUnits * numberOrZero x)
  if same key 0.0 then 0.0 else key

/-- The keys of the four channels, which determine equality and hash. -/
def keys [Numeral α] (c : Color α) : List α :=
  let lab := c.lab.normalized
  [channelKey lab.lightness, channelKey lab.a, channelKey lab.b, channelKey c.alpha]

/-- All channels compare equal as they are. -/
def sameChannels (c d : Color α) : Bool :=
  same c.lab.lightness d.lab.lightness && same c.lab.a d.lab.a && same c.lab.b d.lab.b &&
    same c.alpha d.alpha

/-- Equality of colors. Comparing channels first settles the common case. -/
instance [Numeral α] : BEq (Color α) where
  beq c d := sameChannels c d || (List.zipWith identical c.keys d.keys).all id

/-- Determine whether the color is the neutral one. -/
def isNeutral [Numeral α] (c : Color α) : Bool := c == neutral

end Color

end ColorWords
