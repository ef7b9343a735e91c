import ColorWords.Color
import ColorWords.Palette
import ColorWords.Text.Blank

/-!
# Descriptions

A description is a sequence of words, which anything but ASCII letters separates. Adjectives
add up to a change of lightness and a change of saturation. All other words name colors, the
neutral color where the palette does not know them, and these are mixed in order.

The mix is lightened or darkened and then enriched or dullened. An enriched color stays as it
is and any other color is mapped into the gamut.
-/

namespace ColorWords

open Scalar

namespace Description

/-- The words of a text, being its maximal runs of ASCII letters. -/
def words (text : String) : List String := (Text.runs Char.isAlpha text.toList).map String.ofList

end Description

/-- What has been read of a description: sums of the two changes, the colors named and the
names that are unknown. -/
structure Reading (α : Type) where
  lightness : Accumulator α
  saturation : Accumulator α
  colors : Array (Color α)
  unknown : Array String

namespace Reading

variable {α : Type} [Scalar α]

/-- The reading of no words. -/
def empty : Reading α := ⟨.zero, .zero, #[], #[]⟩

/-- Add the effect of an adjective. -/
def addAdjective (reading : Reading α) (adjective : Adjective) : Reading α :=
  { reading with
    lightness := reading.lightness.add (ofPercent adjective.lightness)
    saturation := reading.saturation.add (ofPercent adjective.saturation) }

/-- Add a word. A word with the shape of an adjective is never a name. -/
def addWord (palette : Palette α) (reading : Reading α) (word : String) : Reading α :=
  match Adjective.ofWord? word with
  | some adjective => reading.addAdjective adjective
  | none =>
    match palette.get? word with
    | some color => { reading with colors := reading.colors.push color }
    | none =>
      { reading with
        colors := reading.colors.push Color.neutral
        unknown := reading.unknown.push word }

/-- Read a description. -/
def ofText (palette : Palette α) (text : String) : Reading α :=
  (Description.words text).foldl (addWord palette) empty

/-- Remarks about unknown names, in order. -/
def notices (reading : Reading α) : List Notice := reading.unknown.toList.map .unknownName

/-- The mix of the colors named. -/
def base (reading : Reading α) : Color α := Color.mix reading.colors.toList

/-- The color described. -/
def color [GamutMap α] (reading : Reading α) : Color α :=
  let base := reading.base.shiftLightness reading.lightness.total
  let saturation := reading.saturation.total
  if 0.0 < saturation then base.enrich saturation
  else if saturation < 0.0 then (base.dullen (-saturation)).toGamut
  else base.toGamut

end Reading

/-- The color that a text describes. -/
def Palette.colorOf {α : Type} [Scalar α] [GamutMap α] (palette : Palette α) (text : String) :
    Color α :=
  (Reading.ofText palette text).color

end ColorWords
