import ColorWords.Intensity
import ColorWords.Proofs.Scalar.Exact

/-!
# Normal colors

A color is normal if all of its channels are numbers within their ranges. Constructors limit
every channel, so whatever they are given, each operation on colors leads to a normal color.
Scores of normal colors are the only ones that a search compares.
-/

namespace ColorWords

open Scalar

/-- All channels of the color are numbers within their ranges. -/
structure Color.IsNormal {α : Type} [Scalar α] (c : Color α) : Prop where
  lightness : Within 0.0 1.0 c.lab.lightness
  a : Within (-Lab.axisLimit) Lab.axisLimit c.lab.a
  b : Within (-Lab.axisLimit) Lab.axisLimit c.lab.b
  alpha : Within 0.0 1.0 c.alpha

/-- The relation holds between each channel of one color and that of another one. -/
structure Color.Channelwise {α : Type} (relation : α → α → Prop) (c d : Color α) : Prop where
  lightness : relation c.lab.lightness d.lab.lightness
  a : relation c.lab.a d.lab.a
  b : relation c.lab.b d.lab.b
  alpha : relation c.alpha d.alpha

/-- Squared distances between normal colors are numbers below infinity. -/
class BoundedScores (α : Type) [Scalar α] : Prop where
  belowInfinity_distanceSquared {c d : Color α} (hc : c.IsNormal) (hd : d.IsNormal) :
    belowInfinity (c.distanceSquared d) = true

/-- All numbers of a field are below infinity. -/
instance BoundedScores.instOfField {K : Type} [Field K] [LinearOrder K] : BoundedScores K where
  belowInfinity_distanceSquared _ _ := rfl

namespace Color

open OrderedScalar

variable {α : Type} [Scalar α] [OrderedScalar α]

/-- Limiting any scalar to the range of an axis leads into it. -/
theorem axis_within (x : α) : Within (-Lab.axisLimit) Lab.axisLimit (Lab.axis x) :=
  clamp_within (le_trans neg_half_le_zero zero_le_half) (numberOrZero_number x)

/-- A color made from any channel values is normal. -/
theorem isNormal_make (lab : Lab α) (alpha : α) : (make lab alpha).IsNormal :=
  ⟨unit_within _, axis_within _, axis_within _, unit_within _⟩

/-- The neutral color is normal. -/
theorem isNormal_neutral : (neutral : Color α).IsNormal := by
  have hzero : Within (0.0 : α) 1.0 0.0 := ⟨number_left zero_le_one, zero_le_one⟩
  have haxis : Within (-Lab.axisLimit : α) Lab.axisLimit 0.0 := ⟨neg_half_le_zero, zero_le_half⟩
  exact ⟨hzero, haxis, haxis, hzero⟩

/-- The mix of any colors is normal. -/
theorem isNormal_mix (colors : List (Color α)) : (mix colors).IsNormal := by
  unfold mix Blend.color
  split
  · exact isNormal_neutral
  · exact isNormal_make _ _

/-- Moving lightness keeps a color normal. -/
theorem IsNormal.shiftLightness {c : Color α} (hc : c.IsNormal) (amount : α) :
    (c.shiftLightness amount).IsNormal := by
  unfold Color.shiftLightness
  split
  · exact isNormal_make _ _
  · split
    · exact isNormal_make _ _
    · exact hc

/-- Applying an intensity keeps a color normal. -/
theorem IsNormal.apply [GamutMap α] {c : Color α} (hc : c.IsNormal) (intensity : Intensity) :
    (intensity.apply c).IsNormal := by
  unfold Intensity.apply
  dsimp only
  split
  · exact isNormal_make _ _
  · split
    · exact isNormal_make _ _
    · exact hc.shiftLightness _

/-- In exact arithmetic a squared distance is not negative. -/
theorem distanceSquared_nonneg {K : Type} [Field K] [LinearOrder K] [IsStrictOrderedRing K]
    (c d : Color K) : 0 ≤ c.distanceSquared d :=
  add_nonneg (mul_self_nonneg _) (add_nonneg (mul_self_nonneg _) (mul_self_nonneg _))

end Color

end ColorWords
