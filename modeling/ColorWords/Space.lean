import ColorWords.Scalar

/-!
# Color spaces

Coordinates in Oklab, in its polar form and in gamma-encoded sRGB, and the conversions
between them. The path from sRGB to Oklab runs through linear light, the XYZ space under
daylight D65 and the cube roots of the cone responses; the way back undoes those steps.

`ColorModel` names the four conversions and the color difference that the rest of the
library uses, so that gamut mapping and everything above it can be read over other
conversions as well.
-/

namespace ColorWords

open Scalar

/-- A point in Oklab: lightness and the green-red and blue-yellow axes. -/
structure Lab (α : Type) where
  lightness : α
  a : α
  b : α

/-- Gamma-encoded sRGB coordinates, between 0 and 1 inside the gamut. -/
structure RGB (α : Type) where
  red : α
  green : α
  blue : α

/-- Oklab in polar form. A color too close to the gray axis has no hue. -/
structure Polar (α : Type) where
  lightness : α
  chroma : α
  hue : Option α

/-- Three coordinates on the way between two spaces. -/
structure Triple (α : Type) where
  x : α
  y : α
  z : α

namespace Triple

variable {α : Type}

/-- Apply a function to each coordinate. -/
@[inline] def map (f : α → α) (v : Triple α) : Triple α := ⟨f v.x, f v.y, f v.z⟩

variable [Scalar α]

/-- The inner product, added up from the last term to the first. -/
@[inline] def dot (row v : Triple α) : α :=
  multiplyAdd row.x v.x (multiplyAdd row.y v.y (row.z * v.z))

/-- Multiply a column vector by the matrix with the given rows. -/
@[inline] def transform (v first second third : Triple α) : Triple α :=
  ⟨first.dot v, second.dot v, third.dot v⟩

end Triple

namespace Conversion

variable {α : Type} [Scalar α]

/-- Linear sRGB to XYZ. -/
@[inline] def xyzOfLinear (v : Triple α) : Triple α :=
  v.transform
    ⟨0.41239079926595934, 0.357584339383878, 0.1804807884018343⟩
    ⟨0.21263900587151027, 0.715168678767756, 0.07219231536073371⟩
    ⟨0.01933081871559182, 0.11919477979462598, 0.9505321522496607⟩

/-- XYZ to linear sRGB. -/
@[inline] def linearOfXyz (v : Triple α) : Triple α :=
  v.transform
    ⟨3.2409699419045226, -1.537383177570094, -0.4986107602930034⟩
    ⟨-0.9692436362808796, 1.8759675015077202, 0.04155505740717559⟩
    ⟨0.05563007969699366, -0.20397695888897652, 1.0569715142428786⟩

/-- XYZ to cone responses. -/
@[inline] def conesOfXyz (v : Triple α) : Triple α :=
  v.transform
    ⟨0.8190224379967030, 0.3619062600528904, -0.1288737815209879⟩
    ⟨0.0329836539323885, 0.9292868615863434, 0.0361446663506424⟩
    ⟨0.0481771893596242, 0.2642395317527308, 0.6335478284694309⟩

/-- Cone responses to XYZ. -/
@[inline] def xyzOfCones (v : Triple α) : Triple α :=
  v.transform
    ⟨1.2268798758459243, -0.5578149944602171, 0.2813910456659647⟩
    ⟨-0.0405757452148008, 1.1122868032803170, -0.0717110580655164⟩
    ⟨-0.0763729366746601, -0.4214933324022432, 1.5869240198367816⟩

/-- Cube roots of the cone responses to Oklab. -/
@[inline] def labOfRoots (v : Triple α) : Triple α :=
  v.transform
    ⟨0.2104542683093140, 0.7936177747023054, -0.0040720430116193⟩
    ⟨1.9779985324311684, -2.4285922420485799, 0.4505937096174110⟩
    ⟨0.0259040424655478, 0.7827717124575296, -0.8086757549230774⟩

/-- Oklab to cube roots of the cone responses. -/
@[inline] def rootsOfLab (v : Triple α) : Triple α :=
  v.transform
    ⟨1.0000000000000000, 0.3963377773761749, 0.2158037573099136⟩
    ⟨1.0000000000000000, -0.1055613458156586, -0.0638541728258133⟩
    ⟨1.0000000000000000, -0.0894841775298119, -1.2914855480194092⟩

/-- The third power. -/
@[inline] def cube (x : α) : α := x * (x * x)

variable [Elementary α]

/-- Remove the gamma of sRGB: a line near zero, a power beyond, odd in its argument. -/
@[inline] def linearize (c : α) : α :=
  if magnitude c ≤ 0.04045 then c / 12.92
  else withSignOf c (Elementary.power ((magnitude c + 0.055) / 1.055) 2.4)

/-- Apply the gamma of sRGB: a line near zero, a root beyond, odd in its argument. -/
@[inline] def gammaEncode (c : α) : α :=
  if magnitude c ≤ 0.00313098 then c * 12.92
  else withSignOf c (multiplyAdd (Elementary.power (magnitude c) (1.0 / 2.4)) 1.055 (-0.055))

end Conversion

namespace RGB

variable {α : Type}

/-- Apply a function to each coordinate. -/
@[inline] def map {β : Type} (f : α → β) (c : RGB α) : RGB β := ⟨f c.red, f c.green, f c.blue⟩

variable [Scalar α]

/-- The coordinates of a color with 8 bits per channel. -/
def ofBytes (c : RGB UInt8) : RGB α := c.map fun byte => ofNat byte.toNat / 255.0

/-- The nearest color with 8 bits per channel, each limited to the gamut first. -/
def toBytes [Numeral α] (c : RGB α) : RGB UInt8 :=
  c.map fun x => (Numeral.toNat (Numeral.round (unit x * 255.0))).toUInt8

/-- Convert to Oklab. -/
def toLab [Elementary α] (c : RGB α) : Lab α :=
  let linear : Triple α :=
    ⟨Conversion.linearize c.red, Conversion.linearize c.green, Conversion.linearize c.blue⟩
  let cones := Conversion.conesOfXyz (Conversion.xyzOfLinear linear)
  let lab := Conversion.labOfRoots (cones.map Elementary.cubeRoot)
  ⟨lab.x, lab.y, lab.z⟩

end RGB

namespace Lab

variable {α : Type} [Scalar α]

/-- The largest magnitude of the a and b axes. -/
def axisLimit : α := 0.5

/-- Limit a value on the a or b axis, with zero for what is not a number. -/
@[inline] def axis (x : α) : α := clamp (-axisLimit) axisLimit (numberOrZero x)

/-- Limit every coordinate to its range, with zero for what is not a number. -/
def normalized (c : Lab α) : Lab α := ⟨unit c.lightness, axis c.a, axis c.b⟩

/-- The square of the Euclidean distance. -/
@[inline] def distanceSquared (c d : Lab α) : α :=
  let lightness := c.lightness - d.lightness
  let a := c.a - d.a
  let b := c.b - d.b
  multiplyAdd lightness lightness (multiplyAdd a a (b * b))

/-- Convert to gamma-encoded sRGB, which may end up outside the gamut. -/
def toRGB [Elementary α] (c : Lab α) : RGB α :=
  let roots := Conversion.rootsOfLab ⟨c.lightness, c.a, c.b⟩
  let linear := Conversion.linearOfXyz (Conversion.xyzOfCones (roots.map Conversion.cube))
  ⟨Conversion.gammaEncode linear.x, Conversion.gammaEncode linear.y,
    Conversion.gammaEncode linear.z⟩

/-- The hue is powerless if both axes are below this magnitude. -/
def powerless : α := 0.0002

/-- Convert to polar form. The hue is in degrees from 0. -/
def toPolar [Elementary α] (c : Lab α) : Polar α :=
  if magnitude c.a < powerless ∧ magnitude c.b < powerless then ⟨c.lightness, 0.0, none⟩
  else
    let hue := Elementary.bearing c.b c.a
    ⟨c.lightness, Elementary.euclidean c.a c.b, some (if hue < 0.0 then hue + 360.0 else hue)⟩

end Lab

namespace Polar

variable {α : Type} [Scalar α]

/-- Convert from polar form. Without a hue the color is gray. -/
def toLab [Elementary α] (c : Polar α) : Lab α :=
  match c.hue with
  | none => ⟨c.lightness, 0.0, 0.0⟩
  | some hue => ⟨c.lightness, c.chroma * Elementary.cosine hue, c.chroma * Elementary.sine hue⟩

end Polar

/-- The conversions between color spaces and the difference between two colors. -/
class ColorModel (α : Type) where
  toRGB : Lab α → RGB α
  ofRGB : RGB α → Lab α
  toPolar : Lab α → Polar α
  ofPolar : Polar α → Lab α
  difference : Lab α → Lab α → α

/-- Oklab over any scalars with elementary functions, with the Euclidean distance as the
difference of colors. -/
instance {α : Type} [Scalar α] [Elementary α] : ColorModel α where
  toRGB := Lab.toRGB
  ofRGB := RGB.toLab
  toPolar := Lab.toPolar
  ofPolar := Polar.toLab
  difference c d := Elementary.squareRoot (c.distanceSquared d)

end ColorWords
