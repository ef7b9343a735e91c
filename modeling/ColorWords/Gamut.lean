import ColorWords.Space

/-!
# The sRGB gamut

A color outside the gamut is mapped into it by giving up chroma and keeping lightness and
hue. The search halves a bracket of chroma values until the color at its upper end, once
clipped, is about a just noticeable difference away from itself; the clipped color is the
result. All conversions are parameters, through `ColorModel`.
-/

namespace ColorWords

open Scalar

namespace RGB

variable {α : Type} [Scalar α]

/-- The slack of the gamut test, which absorbs the error of a conversion and back. -/
def slack : α := 1e-6

/-- Determine whether a coordinate is in gamut. -/
@[inline] def inRange (x : α) : Bool := decide (-slack ≤ x) && decide (x ≤ 1.0 + slack)

/-- Determine whether all coordinates are in gamut. -/
def inGamut (c : RGB α) : Bool := inRange c.red && inRange c.green && inRange c.blue

/-- Limit every coordinate to the gamut. -/
def clip (c : RGB α) : RGB α := c.map (clamp 0.0 1.0)

end RGB

/-- Map a color into the sRGB gamut. -/
class GamutMap (α : Type) where
  toGamut : Lab α → Lab α

namespace Gamut

/-- The state of the search: the chroma bracket, whether its lower end is still known to be
in gamut, and the last clipped color. -/
structure Bracket (α : Type) where
  low : α
  high : α
  lowInGamut : Bool
  clipped : RGB α

/-- What one round of the search leads to: a color to settle for, or a narrower bracket. -/
inductive Outcome (α : Type) where
  | settled (clipped : RGB α)
  | narrowed (bracket : Bracket α)

variable {α : Type} [Scalar α]

/-- The just noticeable difference. -/
def noticeable : α := 0.02

/-- The width at which the search stops. -/
def tolerance : α := 0.0001

namespace Bracket

/-- The search goes on while the bracket is wider than the tolerance. -/
@[inline] def isWide (bracket : Bracket α) : Bool := decide (tolerance < bracket.high - bracket.low)

/-- The chroma halfway between both ends. -/
@[inline] def middle (bracket : Bracket α) : α := (bracket.low + bracket.high) / 2.0

variable [ColorModel α]

/-- Try the middle of the bracket, at the lightness and hue of `origin`. -/
def narrow (origin : Polar α) (bracket : Bracket α) : Outcome α :=
  let chroma := bracket.middle
  let current := ColorModel.ofPolar { origin with chroma := chroma }
  let rgb := ColorModel.toRGB current
  if bracket.lowInGamut && rgb.inGamut then
    .narrowed { bracket with low := chroma }
  else
    let clipped := rgb.clip
    let difference := ColorModel.difference (ColorModel.ofRGB clipped) current
    if difference < noticeable then
      if noticeable - difference < tolerance then .settled clipped
      else .narrowed { bracket with low := chroma, lowInGamut := false, clipped := clipped }
    else
      .narrowed { bracket with high := chroma, clipped := clipped }

/-- Narrow the bracket, for at most the given number of rounds, and return the clipped color
that the search ends with. -/
def search (origin : Polar α) : Nat → Bracket α → RGB α
  | 0, bracket => bracket.clipped
  | rounds + 1, bracket =>
    if bracket.isWide then
      match bracket.narrow origin with
      | .settled clipped => clipped
      | .narrowed bracket => search origin rounds bracket
    else bracket.clipped

end Bracket

/-- More rounds than any search needs, since each one halves a bracket less than one wide. -/
def maxRounds : Nat := 64

variable [ColorModel α]

/-- Map an Oklab color into the gamut. White and black absorb all colors of their lightness,
and colors in gamut stay. Of the others, a color whose clipped form is not noticeably
different becomes that; the rest lose chroma. -/
def map (c : Lab α) : Lab α :=
  let c := c.normalized
  let origin := ColorModel.toPolar c
  if 1.0 ≤ origin.lightness then ⟨1.0, 0.0, 0.0⟩
  else if origin.lightness ≤ 0.0 then ⟨0.0, 0.0, 0.0⟩
  else
    let rgb := ColorModel.toRGB c
    if rgb.inGamut then c
    else
      let clipped := rgb.clip
      let lab := ColorModel.ofRGB clipped
      if ColorModel.difference lab (ColorModel.ofPolar origin) < noticeable then lab
      else
        let bracket : Bracket α := ⟨0.0, origin.chroma, true, clipped⟩
        ColorModel.ofRGB (bracket.search origin maxRounds)

end Gamut

instance {α : Type} [Scalar α] [ColorModel α] : GamutMap α where
  toGamut := Gamut.map

end ColorWords
