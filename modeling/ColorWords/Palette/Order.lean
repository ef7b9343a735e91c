import ColorWords.Palette

/-!
# Orders of names

Named colors in alphabetical order, by lightness and by hue. Ties go to the name that comes
first in the alphabet, so an order depends on the colors and names alone. Hue puts grays
first, by lightness, and leaves out colors without alpha.
-/

namespace ColorWords

/-- The place of a color in the order by hue. -/
inductive HueRank (α : Type) where
  | gray (lightness : α)
  | chromatic (hue : α)

namespace HueRank

variable {α : Type} [Scalar α]

/-- Grays come before all others. -/
def order : HueRank α → HueRank α → Ordering
  | gray x, gray y => Scalar.totalCompare x y
  | gray _, chromatic _ => .lt
  | chromatic _, gray _ => .gt
  | chromatic x, chromatic y => Scalar.totalCompare x y

end HueRank

/-- The rank of a color by hue. -/
def Color.hueRank {α : Type} [Scalar α] [ColorModel α] (c : Color α) : HueRank α :=
  match c.hue with
  | none => .gray c.lab.lightness
  | some hue => if c.isGray then .gray c.lab.lightness else .chromatic hue

namespace Palette

variable {α : Type} [Scalar α]

/-- Sort named colors by the given order of colors and then by name. -/
def sortBy (order : Color α → Color α → Ordering) (entries : List (String × Color α)) :
    List (String × Color α) :=
  entries.mergeSort fun x y => ((order x.2 y.2).then (compare x.1 y.1)).isLE

/-- The named colors in alphabetical order. -/
def alphabetical (palette : Palette α) : List (String × Color α) :=
  sortBy (fun _ _ => .eq) palette.entries

/-- The named colors by lightness. -/
def byLightness (palette : Palette α) : List (String × Color α) :=
  sortBy (fun c d => Scalar.totalCompare c.lab.lightness d.lab.lightness) palette.entries

/-- The named colors with any alpha, by hue. -/
def byHue [ColorModel α] (palette : Palette α) : List (String × Color α) :=
  sortBy (fun c d => c.hueRank.order d.hueRank)
    (palette.entries.filter fun entry => decide ((0.0 : α) < entry.2.alpha))

end Palette

end ColorWords
