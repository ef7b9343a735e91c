import ColorWords.Intensity
import ColorWords.Proofs.Scalar.Exact

/-!
# Intensities in exact arithmetic

The changes of an intensity are computed in scalars, apart from the table of hundredths that
phrases are placed with. In exact arithmetic both are the same.
-/

namespace ColorWords

open Scalar

namespace Intensity

/-- The saturation tier is one of the table. -/
theorem saturationTier_lt (intensity : Intensity) : intensity.saturationTier < Phrase.tiers :=
  Nat.div_lt_of_lt_mul intensity.code.isLt

/-- The lightness tier is one of the table. -/
theorem lightnessTier_lt (intensity : Intensity) : intensity.lightnessTier < Phrase.tiers :=
  Nat.mod_lt _ (by decide)

variable {K : Type} [Field K] [LinearOrder K] [IsStrictOrderedRing K]

/-- In exact arithmetic the change of lightness is that of the table. -/
theorem lightness_eq_div (intensity : Intensity) :
    (intensity.lightness : K) = Phrase.lightness intensity.lightnessTier / 100 := by
  have htier : min intensity.lightnessTier (Phrase.tiers - 1) = intensity.lightnessTier :=
    min_eq_left (Nat.le_pred_of_lt intensity.lightnessTier_lt)
  rw [lightness, lightnessAt, htier, ofNat_eq_cast, ofNat_eq_cast, Phrase.lightness]
  push_cast
  norm_num
  ring

/-- In exact arithmetic the change of saturation is that of the table. -/
theorem saturation_eq_div (intensity : Intensity) :
    (intensity.saturation : K) = Phrase.saturation intensity.saturationTier / 100 := by
  have htier := intensity.saturationTier_lt
  unfold saturation
  generalize intensity.saturationTier = tier at htier
  simp only [saturationAt, ofNat_eq_cast, Phrase.saturation, Phrase.tiers, Phrase.neutralTier] at *
  interval_cases tier <;> norm_num

end Intensity

end ColorWords
