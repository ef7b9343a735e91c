import ColorWords.Description
import ColorWords.Proofs.Color.Normal

/-!
# Mapping into the gamut

Every way out of gamut mapping leads into the gamut, whatever the conversions are: white and black
are in gamut, a color in gamut stays, and any other result comes from a clipped triple. The search
keeps a clipped triple at hand in all rounds, so it does not matter when it stops. Clipped triples
are in the unit cube, and a conversion to Oklab and back moves them no further than the slack of
the gamut test, so mapping a result again changes nothing.
-/

namespace ColorWords

open Scalar OrderedScalar

variable {α : Type} [Scalar α]

/-! ## Assumptions -/

/-- The laws of arithmetic that gamut mapping depends on. Black is darker than white, the middle of
two numbers on one side of zero is a number on this side, the gamut test allows for small moves out
of the unit range, and intensities beyond the neutral tier of saturation enrich. -/
class GamutScalar (α : Type) [Scalar α] : Prop extends OrderedScalar α where
  zero_lt_one : (0.0 : α) < 1.0
  middle_nonneg {x y : α} (hx : 0.0 ≤ x) (hy : 0.0 ≤ y) : 0.0 ≤ (x + y) / 2.0
  middle_nonpos {x y : α} (hx : x ≤ 0.0) (hy : y ≤ 0.0) : (x + y) / 2.0 ≤ 0.0
  inRange_of_close {x y : α} (hx : Within 0.0 1.0 x) (hy : magnitude (y - x) ≤ RGB.slack) :
    RGB.inRange y = true
  saturationAt_pos {tier : ℕ} (htier : Phrase.neutralTier < tier) :
    (0.0 : α) < Intensity.saturationAt tier

/-- The saturation at a tier is that at the last tier from there on. -/
theorem Intensity.saturationAt_min (tier : ℕ) :
    (saturationAt (min tier 8) : α) = saturationAt tier := by
  have hmin : min (min tier 8) (Phrase.tiers - 1) = min tier (Phrase.tiers - 1) := by
    rw [Phrase.tiers]
    omega
  rw [saturationAt, hmin, saturationAt]

/-- The laws hold in exact arithmetic. -/
instance GamutScalar.instOfField {K : Type} [Field K] [LinearOrder K] [IsStrictOrderedRing K] :
    GamutScalar K where
  zero_lt_one := by norm_num
  middle_nonneg hx hy := by
    norm_num at hx hy ⊢
    linarith
  middle_nonpos hx hy := by
    norm_num at hx hy ⊢
    linarith
  inRange_of_close {x y} hx hy := by
    obtain ⟨hlow, hhigh⟩ := hx
    unfold magnitude at hy
    rw [RGB.inRange, Bool.and_eq_true, decide_eq_true_eq, decide_eq_true_eq]
    unfold RGB.slack at hy ⊢
    split at hy <;> norm_num at * <;> constructor <;> linarith
  saturationAt_pos {tier} htier := by
    rw [← Intensity.saturationAt_min]
    rw [Phrase.neutralTier] at htier
    have hcases : min tier 8 = 5 ∨ min tier 8 = 6 ∨ min tier 8 = 7 ∨ min tier 8 = 8 := by omega
    rcases hcases with h | h | h | h <;> rw [h] <;>
      norm_num [Intensity.saturationAt, Phrase.tiers, Phrase.neutralTier]

/-- All coordinates are numbers. -/
def Lab.IsNumeric (c : Lab α) : Prop :=
  c.lightness ≤ c.lightness ∧ c.a ≤ c.a ∧ c.b ≤ c.b

/-- All coordinates are numbers. -/
def RGB.IsNumeric (c : RGB α) : Prop :=
  c.red ≤ c.red ∧ c.green ≤ c.green ∧ c.blue ≤ c.blue

/-- All coordinates that are there are numbers. -/
def Polar.IsNumeric (c : Polar α) : Prop :=
  c.lightness ≤ c.lightness ∧ c.chroma ≤ c.chroma ∧ ∀ hue ∈ c.hue, hue ≤ hue

/-- All coordinates are in the unit range. -/
def RGB.InCube (c : RGB α) : Prop :=
  Within 0.0 1.0 c.red ∧ Within 0.0 1.0 c.green ∧ Within 0.0 1.0 c.blue

/-- No coordinate differs by more than the slack of the gamut test. -/
def RGB.IsClose (c d : RGB α) : Prop :=
  magnitude (d.red - c.red) ≤ RGB.slack ∧ magnitude (d.green - c.green) ≤ RGB.slack ∧
    magnitude (d.blue - c.blue) ≤ RGB.slack

/-- What gamut mapping relies on of the conversions. Polar form keeps lightness, numbers are
converted to numbers, white and black are in gamut, and a triple in the unit cube comes close to
itself when converted to Oklab and back. -/
structure SoundConversions (α : Type) [Scalar α] [ColorModel α] : Prop where
  toPolar_lightness (c : Lab α) : (ColorModel.toPolar c).lightness = c.lightness
  toRGB_numeric {c : Lab α} (hc : c.IsNumeric) : (ColorModel.toRGB c).IsNumeric
  toPolar_numeric {c : Lab α} (hc : c.IsNumeric) : (ColorModel.toPolar c).IsNumeric
  ofPolar_numeric {c : Polar α} (hc : c.IsNumeric) : (ColorModel.ofPolar c).IsNumeric
  white_inGamut : (ColorModel.toRGB (⟨1.0, 0.0, 0.0⟩ : Lab α)).inGamut = true
  black_inGamut : (ColorModel.toRGB (⟨0.0, 0.0, 0.0⟩ : Lab α)).inGamut = true
  roundTrip {c : RGB α} (hc : c.InCube) :
    c.IsClose (ColorModel.toRGB (ColorModel.ofRGB c).normalized)

/-- The polar form of the library keeps lightness. -/
theorem Lab.toPolar_lightness [Elementary α] (c : Lab α) : c.toPolar.lightness = c.lightness := by
  unfold Lab.toPolar
  split <;> rfl

/-! ## Ranges -/

section Ranges

variable [OrderedScalar α]

/-- A number within a range is not changed by limiting it to this range. -/
theorem clamp_eq_self {low high x : α} (h : Within low high x) : clamp low high x = x := by
  rw [clamp, if_neg fun hlt => not_le_of_lt hlt h.1, if_neg fun hlt => not_le_of_lt hlt h.2]

omit [OrderedScalar α] in
/-- A number stays when what is not a number is replaced. -/
theorem numberOrZero_eq_self {x : α} (h : x ≤ x) : numberOrZero x = x := if_pos h

/-- A number within the unit range is not changed. -/
theorem unit_eq_self {x : α} (h : Within 0.0 1.0 x) : unit x = x := by
  rw [unit, numberOrZero_eq_self (number_left h.2), clamp_eq_self h]

/-- A number within the range of an axis is not changed. -/
theorem axis_eq_self {x : α} (h : Within (-Lab.axisLimit) Lab.axisLimit x) : Lab.axis x = x := by
  rw [Lab.axis, numberOrZero_eq_self (number_left h.2), clamp_eq_self h]

/-- The channels of a normal color are not changed by limiting them. -/
theorem Color.IsNormal.normalized_eq {c : Color α} (hc : c.IsNormal) :
    c.lab.normalized = c.lab := by
  rw [Lab.normalized, unit_eq_self hc.lightness, axis_eq_self hc.a, axis_eq_self hc.b]

/-- The channels of a normal color are numbers. -/
theorem Color.IsNormal.isNumeric {c : Color α} (hc : c.IsNormal) : c.lab.IsNumeric :=
  ⟨number_left hc.lightness.2, number_left hc.a.2, number_left hc.b.2⟩

/-- Clipping numbers leads into the unit cube. -/
theorem RGB.IsNumeric.inCube_clip {c : RGB α} (hc : c.IsNumeric) : c.clip.InCube :=
  ⟨clamp_within zero_le_one hc.1, clamp_within zero_le_one hc.2.1, clamp_within zero_le_one hc.2.2⟩

end Ranges

/-! ## The search -/

namespace Gamut

/-- The numbers are on the same side of zero. -/
def SameSide (x y : α) : Prop := 0.0 ≤ x ∧ 0.0 ≤ y ∨ x ≤ 0.0 ∧ y ≤ 0.0

/-- The ends of the bracket are numbers on the same side of zero, and the clipped color is in the
unit cube. -/
structure Bracket.IsSound (bracket : Bracket α) : Prop where
  sameSide : SameSide bracket.low bracket.high
  clipped : bracket.clipped.InCube

variable [GamutScalar α]

/-- The middle is on the side of the ends. -/
theorem Bracket.IsSound.middle {bracket : Bracket α} (h : bracket.IsSound) :
    SameSide bracket.middle bracket.high ∧ SameSide bracket.low bracket.middle := by
  rcases h.sameSide with ⟨hlow, hhigh⟩ | ⟨hlow, hhigh⟩
  · have hmiddle := GamutScalar.middle_nonneg hlow hhigh
    exact ⟨Or.inl ⟨hmiddle, hhigh⟩, Or.inl ⟨hlow, hmiddle⟩⟩
  · have hmiddle := GamutScalar.middle_nonpos hlow hhigh
    exact ⟨Or.inr ⟨hmiddle, hhigh⟩, Or.inr ⟨hlow, hmiddle⟩⟩

/-- What a round leads to is sound. -/
def Outcome.IsSound : Outcome α → Prop
  | settled clipped => clipped.InCube
  | narrowed bracket => bracket.IsSound

variable [ColorModel α]

/-- A round of the search leads from a sound bracket to a sound outcome. -/
theorem Bracket.IsSound.narrow (h : SoundConversions α) {origin : Polar α}
    (horigin : origin.IsNumeric) {bracket : Bracket α} (hbracket : bracket.IsSound) :
    (bracket.narrow origin).IsSound := by
  obtain ⟨hupper, hlower⟩ := hbracket.middle
  have hnumber : bracket.middle ≤ bracket.middle := by
    rcases hlower with ⟨-, hmiddle⟩ | ⟨-, hmiddle⟩
    · exact number_right hmiddle
    · exact number_left hmiddle
  have hcurrent : Polar.IsNumeric { origin with chroma := bracket.middle } :=
    ⟨horigin.1, hnumber, horigin.2.2⟩
  have hclipped := (h.toRGB_numeric (h.ofPolar_numeric hcurrent)).inCube_clip
  unfold Bracket.narrow
  dsimp only
  split
  · exact ⟨hupper, hbracket.clipped⟩
  · split
    · split
      · exact hclipped
      · exact ⟨hupper, hclipped⟩
    · exact ⟨hlower, hclipped⟩

/-- The search ends with a color in the unit cube, after any number of rounds. -/
theorem Bracket.IsSound.search (h : SoundConversions α) {origin : Polar α}
    (horigin : origin.IsNumeric) (rounds : ℕ) {bracket : Bracket α} (hbracket : bracket.IsSound) :
    (bracket.search origin rounds).InCube := by
  induction rounds generalizing bracket with
  | zero => exact hbracket.clipped
  | succ rounds ih =>
    unfold Bracket.search
    split
    · have hnarrow := hbracket.narrow h horigin
      split
      · next clipped houtcome =>
        rw [houtcome] at hnarrow
        exact hnarrow
      · next narrowed houtcome =>
        rw [houtcome] at hnarrow
        exact ih hnarrow
    · exact hbracket.clipped

/-- The ways out of gamut mapping, by lightness and by whether the color is in gamut. -/
theorem map_cases (h : SoundConversions α) {c : Color α} (hc : c.IsNormal) :
    1.0 ≤ c.lab.lightness ∧ map c.lab = ⟨1.0, 0.0, 0.0⟩ ∨
      c.lab.lightness ≤ 0.0 ∧ map c.lab = ⟨0.0, 0.0, 0.0⟩ ∨
      (0.0 < c.lab.lightness ∧ c.lab.lightness < 1.0) ∧
        (c.inGamut = true ∧ map c.lab = c.lab ∨
          c.inGamut = false ∧ ∃ x : RGB α, x.InCube ∧ map c.lab = ColorModel.ofRGB x) := by
  have hnumeric := hc.isNumeric
  have horigin := h.toPolar_numeric hnumeric
  have hone : (1.0 : α) ≤ 1.0 := number_right (zero_le_one (α := α))
  have hzero : (0.0 : α) ≤ 0.0 := number_left (zero_le_one (α := α))
  have hclipped := (h.toRGB_numeric hnumeric).inCube_clip
  rw [map, hc.normalized_eq]
  simp only [h.toPolar_lightness]
  split
  · next hwhite => exact Or.inl ⟨hwhite, rfl⟩
  · next hnotWhite =>
    split
    · next hblack => exact Or.inr (Or.inl ⟨hblack, rfl⟩)
    · next hnotBlack =>
      refine Or.inr (Or.inr ⟨⟨lt_of_not_le hzero hnumeric.1 hnotBlack,
        lt_of_not_le hnumeric.1 hone hnotWhite⟩, ?_⟩)
      split
      · next hin => exact Or.inl ⟨hin, rfl⟩
      · next hout =>
        refine Or.inr ⟨eq_false_of_ne_true hout, ?_⟩
        split
        · exact ⟨_, hclipped, rfl⟩
        · -- The search starts with zero and a chroma of any sign.
          have hside : SameSide 0.0 (ColorModel.toPolar c.lab).chroma :=
            (le_total hzero horigin.2.1).imp (⟨hzero, ·⟩) (⟨hzero, ·⟩)
          have hbracket : Bracket.IsSound
              ⟨0.0, (ColorModel.toPolar c.lab).chroma, true, (ColorModel.toRGB c.lab).clip⟩ :=
            ⟨hside, hclipped⟩
          exact ⟨_, hbracket.search h horigin maxRounds, rfl⟩

end Gamut

namespace Color

variable [GamutScalar α]

/-- A triple close to one in the unit cube is in gamut. -/
theorem inGamut_of_isClose {c d : RGB α} (hc : c.InCube) (hd : c.IsClose d) : d.inGamut = true := by
  rw [RGB.inGamut, GamutScalar.inRange_of_close hc.1 hd.1,
    GamutScalar.inRange_of_close hc.2.1 hd.2.1, GamutScalar.inRange_of_close hc.2.2 hd.2.2]
  rfl

/-- White and black are not changed by limiting their channels. -/
theorem normalized_gray {x : α} (hx : Within 0.0 1.0 x) :
    (⟨x, 0.0, 0.0⟩ : Lab α).normalized = ⟨x, 0.0, 0.0⟩ := by
  have haxis : Within (-Lab.axisLimit : α) Lab.axisLimit 0.0 := ⟨neg_half_le_zero, zero_le_half⟩
  rw [Lab.normalized, unit_eq_self hx, axis_eq_self haxis]

variable [ColorModel α]

omit [GamutScalar α] in
/-- The channels of a mapped color. -/
theorem lab_toGamut (c : Color α) : c.toGamut.lab = (Gamut.map c.lab).normalized := rfl

/-- Mapping into the gamut leads into the gamut. -/
theorem inGamut_toGamut (h : SoundConversions α) {c : Color α} (hc : c.IsNormal) :
    c.toGamut.inGamut = true := by
  have hone : Within (0.0 : α) 1.0 1.0 := ⟨zero_le_one, number_right (zero_le_one (α := α))⟩
  have hzero : Within (0.0 : α) 1.0 0.0 := ⟨number_left (zero_le_one (α := α)), zero_le_one⟩
  rw [inGamut, lab_toGamut]
  rcases Gamut.map_cases h hc with ⟨-, hmap⟩ | ⟨-, hmap⟩ | ⟨-, ⟨hin, hmap⟩ | ⟨-, x, hx, hmap⟩⟩
  · rw [hmap, normalized_gray hone]
    exact h.white_inGamut
  · rw [hmap, normalized_gray hzero]
    exact h.black_inGamut
  · rw [hmap, hc.normalized_eq]
    exact hin
  · rw [hmap]
    exact inGamut_of_isClose hx (h.roundTrip hx)

/-- A color in gamut keeps its channels unless it is as light as white or as dark as black. -/
theorem lab_toGamut_of_inGamut (h : SoundConversions α) {c : Color α} (hc : c.IsNormal)
    (hin : c.inGamut = true) (hdark : 0.0 < c.lab.lightness) (hlight : c.lab.lightness < 1.0) :
    c.toGamut.lab = c.lab := by
  rw [lab_toGamut]
  rcases Gamut.map_cases h hc with ⟨hwhite, -⟩ | ⟨hblack, -⟩ | ⟨-, ⟨-, hmap⟩ | ⟨hout, -⟩⟩
  · exact absurd hwhite (not_le_of_lt hlight)
  · exact absurd hblack (not_le_of_lt hdark)
  · rw [hmap, hc.normalized_eq]
  · exact absurd (hin.symm.trans hout) (by decide)

/-- Other colors become white, black, or the image of a triple in the unit cube. -/
theorem lab_toGamut_cases (h : SoundConversions α) {c : Color α} (hc : c.IsNormal) :
    (1.0 ≤ c.lab.lightness → c.toGamut.lab = ⟨1.0, 0.0, 0.0⟩) ∧
      (c.lab.lightness ≤ 0.0 → c.toGamut.lab = ⟨0.0, 0.0, 0.0⟩) ∧
      (0.0 < c.lab.lightness → c.lab.lightness < 1.0 → c.inGamut = false →
        ∃ x : RGB α, x.InCube ∧ c.toGamut.lab = (ColorModel.ofRGB x).normalized) := by
  have hlt : (0.0 : α) < 1.0 := GamutScalar.zero_lt_one
  have hone : Within (0.0 : α) 1.0 1.0 := ⟨zero_le_one, number_right (le_of_lt hlt)⟩
  have hzero : Within (0.0 : α) 1.0 0.0 := ⟨number_left (le_of_lt hlt), zero_le_one⟩
  rw [lab_toGamut]
  rcases Gamut.map_cases h hc with ⟨hwhite, hmap⟩ | ⟨hblack, hmap⟩ |
    ⟨⟨hdark, hlight⟩, hrest⟩
  · refine ⟨fun _ => by rw [hmap, normalized_gray hone], fun hblack => ?_, fun _ hlight => ?_⟩
    · exact absurd (le_trans hwhite hblack) (not_le_of_lt hlt)
    · exact absurd hwhite (not_le_of_lt hlight)
  · refine ⟨fun hwhite => ?_, fun _ => by rw [hmap, normalized_gray hzero], fun hdark => ?_⟩
    · exact absurd (le_trans hwhite hblack) (not_le_of_lt hlt)
    · exact absurd hblack (not_le_of_lt hdark)
  · refine ⟨fun hwhite => absurd hwhite (not_le_of_lt hlight),
      fun hblack => absurd hblack (not_le_of_lt hdark), fun _ _ hout => ?_⟩
    rcases hrest with ⟨hin, -⟩ | ⟨-, x, hx, hmap⟩
    · exact absurd (hin.symm.trans hout) (by decide)
    · exact ⟨x, hx, by rw [hmap]⟩

/-- Mapping any normal color into the gamut leads to a color in gamut with the same alpha, which is
white or black at the ends of lightness, the color itself if it is in gamut, and otherwise the
image of a clipped triple. Mapping the result again changes nothing between the ends. Therefore
descriptions that do not enrich describe colors in gamut, and intensities beyond the neutral tier of
saturation lead to colors in gamut. -/
theorem toGamut_delivers (h : SoundConversions α) :
    (∀ c : Color α, c.IsNormal →
      c.toGamut.inGamut = true ∧ c.toGamut.alpha = c.alpha ∧
      (0.0 < c.lab.lightness → c.lab.lightness < 1.0 → c.inGamut = true →
        c.toGamut.lab = c.lab) ∧
      (1.0 ≤ c.lab.lightness → c.toGamut.lab = ⟨1.0, 0.0, 0.0⟩) ∧
      (c.lab.lightness ≤ 0.0 → c.toGamut.lab = ⟨0.0, 0.0, 0.0⟩) ∧
      (0.0 < c.lab.lightness → c.lab.lightness < 1.0 → c.inGamut = false →
        ∃ x : RGB α, x.InCube ∧ c.toGamut.lab = (ColorModel.ofRGB x).normalized) ∧
      (0.0 < c.toGamut.lab.lightness → c.toGamut.lab.lightness < 1.0 →
        c.toGamut.toGamut.lab = c.toGamut.lab)) ∧
    (∀ (palette : Palette α) (text : String),
      (Reading.ofText palette text).saturation.total ≤ 0.0 →
        (palette.colorOf text).inGamut = true) ∧
    ∀ (intensity : Intensity) (c : Color α), Phrase.neutralTier < intensity.saturationTier →
      (intensity.apply c).inGamut = true := by
  refine ⟨fun c hc => ?_, fun palette text htotal => ?_, fun intensity c htier => ?_⟩
  · obtain ⟨hwhite, hblack, hout⟩ := lab_toGamut_cases h hc
    exact ⟨inGamut_toGamut h hc, unit_eq_self hc.alpha,
      fun hdark hlight hin => lab_toGamut_of_inGamut h hc hin hdark hlight, hwhite, hblack, hout,
      lab_toGamut_of_inGamut h (isNormal_make _ _) (inGamut_toGamut h hc)⟩
  · have hnotEnriched : ¬ 0.0 < (Reading.ofText palette text).saturation.total := fun hlt =>
      not_le_of_lt hlt htotal
    rw [Palette.colorOf, Reading.color]
    rw [if_neg hnotEnriched]
    split
    · exact inGamut_toGamut h (isNormal_make _ _)
    · exact inGamut_toGamut h ((isNormal_mix _).shiftLightness _)
  · have henriched : 0.0 < (intensity.saturation : α) := GamutScalar.saturationAt_pos htier
    rw [Intensity.apply]
    rw [if_pos henriched]
    exact inGamut_toGamut h (isNormal_make _ _)

/-- A model of color over the rational numbers. Its conversions to sRGB are linear and reach out of
gamut, and its polar form measures chroma and hue along the sides of a diamond. -/
@[reducible]
def diamondModel : ColorModel ℚ where
  toRGB c := ⟨c.lightness, c.lightness + 2 * c.a, c.lightness + 2 * c.b⟩
  ofRGB c := ⟨c.red, (c.green - c.red) / 2, (c.blue - c.red) / 2⟩
  toPolar c :=
    let chroma := |c.a| + |c.b|
    ⟨c.lightness, chroma, some (if 0 ≤ c.b then 1 - c.a / chroma else 3 + c.a / chroma)⟩
  ofPolar c :=
    let hue := c.hue.getD 0
    if hue ≤ 2 then ⟨c.lightness, c.chroma * (1 - hue), c.chroma * (1 - |1 - hue|)⟩
    else ⟨c.lightness, c.chroma * (hue - 3), c.chroma * (|hue - 3| - 1)⟩
  difference c d := |c.lightness - d.lightness| + |c.a - d.a| + |c.b - d.b|

/-- The conversions of this model are sound. -/
theorem sound_diamondModel : @SoundConversions ℚ _ diamondModel := by
  let _ := diamondModel
  have hroundTrip {c : RGB ℚ} (hc : c.InCube) :
      c.IsClose (ColorModel.toRGB (ColorModel.ofRGB c).normalized) := by
    obtain ⟨hred, hgreen, hblue⟩ := hc
    have haxis {x : ℚ} (hx : Within 0.0 1.0 x) : Lab.axis ((x - c.red) / 2) = (x - c.red) / 2 := by
      refine axis_eq_self ?_
      unfold Within Lab.axisLimit at *
      norm_num at *
      constructor <;> linarith
    have hclose {x y : ℚ} (h : y = x) : magnitude (y - x) ≤ RGB.slack := by
      rw [h, sub_self]
      decide +kernel
    have hback (x : ℚ) : c.red + 2 * ((x - c.red) / 2) = x := by ring
    have hnormalized : (ColorModel.ofRGB c).normalized =
        ⟨c.red, (c.green - c.red) / 2, (c.blue - c.red) / 2⟩ := by
      change (⟨unit c.red, Lab.axis ((c.green - c.red) / 2),
        Lab.axis ((c.blue - c.red) / 2)⟩ : Lab ℚ) = _
      rw [unit_eq_self hred, haxis hgreen, haxis hblue]
    rw [hnormalized]
    exact ⟨hclose rfl, hclose (hback c.green), hclose (hback c.blue)⟩
  exact
    { toPolar_lightness := fun _ => rfl
      toRGB_numeric := fun _ => ⟨le_rfl, le_rfl, le_rfl⟩
      toPolar_numeric := fun _ => ⟨le_rfl, le_rfl, fun _ _ => le_rfl⟩
      ofPolar_numeric := fun _ => ⟨le_rfl, le_rfl, le_rfl⟩
      white_inGamut := by decide +kernel
      black_inGamut := by decide +kernel
      roundTrip := hroundTrip }

/-- Under sound conversions, a color out of gamut is mapped into the gamut with its alpha, and an
intensity that enriches it leads into the gamut, too. -/
theorem toGamut_delivers_diamond :
    ∃ _ : ColorModel ℚ, SoundConversions ℚ ∧
      (make ⟨0.5, 0.4, 0.2⟩ 0.5 : Color ℚ).inGamut = false ∧
      (make ⟨0.5, 0.4, 0.2⟩ 0.5 : Color ℚ).toGamut.inGamut = true ∧
      (make ⟨0.5, 0.4, 0.2⟩ 0.5 : Color ℚ).toGamut.alpha = 0.5 ∧
      (Intensity.apply ⟨⟨45, by decide⟩⟩ (make ⟨0.5, 0.4, 0.2⟩ 0.5 : Color ℚ)).inGamut = true := by
  have hmapped := (@toGamut_delivers ℚ _ _ diamondModel sound_diamondModel).1
    (make ⟨0.5, 0.4, 0.2⟩ 0.5) (isNormal_make _ _)
  have halpha : (make ⟨0.5, 0.4, 0.2⟩ 0.5 : Color ℚ).alpha = 0.5 := by decide +kernel
  refine ⟨diamondModel, sound_diamondModel, by decide +kernel, hmapped.1,
    hmapped.2.1.trans halpha, ?_⟩
  exact (@toGamut_delivers ℚ _ _ diamondModel sound_diamondModel).2.2 _ _ (by decide)

end Color

end ColorWords
