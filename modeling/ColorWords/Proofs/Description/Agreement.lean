import ColorWords.Proofs.Description.Wording
import ColorWords.Proofs.Intensity
import ColorWords.Proofs.Search.Black

/-!
# Descriptions and intensities agree

A description is evaluated in two ways: a reader adds up the changes of its adjectives, and the
search applies an intensity to the mix. Where the changes are those of the intensity, both lead
to the same color up to gamut mapping, which the intensity does to enriched colors only and the
reader to all others.

In exact arithmetic the adjectives of an intensity change lightness and saturation as much as
the intensity, but for three cells of the table of phrases.
-/

namespace ColorWords

open Scalar

/-- Two colors that are the same up to gamut mapping: that of an intensity is the one mapped if
saturation increases, and otherwise the one described is. -/
def AgreeUpToGamut {α : Type} [Scalar α] [GamutMap α] (saturation : α)
    (described applied : Color α) : Prop :=
  (0.0 < saturation → applied = described.toGamut) ∧
    (¬ 0.0 < saturation → described = applied.toGamut)

/-- A reading with the changes of an intensity describes what the intensity makes of its base. -/
theorem Reading.color_agrees_apply {α : Type} [Scalar α] [GamutMap α] {reading : Reading α}
    {intensity : Intensity} (hlightness : reading.lightness.total = intensity.lightness)
    (hsaturation : reading.saturation.total = intensity.saturation) :
    AgreeUpToGamut reading.saturation.total reading.color (intensity.apply reading.base) := by
  unfold Reading.color Intensity.apply
  rw [hlightness, hsaturation]
  constructor
  · intro hpos
    simp only [hpos, if_true]
  · intro hnotPos
    by_cases hneg : intensity.saturation < (0.0 : α)
    · simp only [hnotPos, hneg, if_true, if_false]
    · simp only [hnotPos, hneg, if_false]

/-! ## Winners of a search -/

namespace Palette

variable {K : Type} [Field K] [LinearOrder K] [IsStrictOrderedRing K] [ColorModel K]

/-- In exact arithmetic the text of a match has the changes of its intensity, unless a bright
adjective stands in it that is nearest only. -/
theorem ofText_text_totals (palette : Palette K)
    (hshape : ∀ name ∈ palette.names, Adjective.ofWord? name = none) {found : Match K}
    (hfound : ∀ i ∈ found.indices, i < palette.candidates.length)
    (htiers : ¬ (found.intensity.saturationTier = found.intensity.lightnessTier ∧
      6 ≤ found.intensity.saturationTier)) :
    let reading := Reading.ofText palette (found.text palette.candidateNames.toArray)
    reading.lightness.total = found.intensity.lightness ∧
      reading.saturation.total = found.intensity.saturation ∧
      reading.base = Color.mix (Search.colorsAt palette.candidates found.indices) := by
  intro reading
  have hread := palette.ofText_text found hfound fun entry hentry =>
    hshape entry.1 (List.mem_map_of_mem (mem_of_mem_candidatesAt hfound hentry).1)
  have hs := found.intensity.saturationTier_lt
  have hl := found.intensity.lightnessTier_lt
  refine ⟨?_, ?_, ?_⟩
  · rw [show reading = _ from hread, Accumulator.total_ofList_ofPercent, Match.adjectives,
      Phrase.sum_lightness_adjectives hs hl, Intensity.lightness_eq_div]
  · rw [show reading = _ from hread, Accumulator.total_ofList_ofPercent, Match.adjectives,
      (Phrase.sum_saturation_adjectives_iff hs hl).mpr htiers, Intensity.saturation_eq_div]
  · rw [show reading = _ from hread, Reading.base]

end Palette

/-- The reader of a description and the search that writes one agree up to gamut mapping: for
any text with the changes of an intensity, and in exact arithmetic for what a search finds in a
palette without adjectives for names, unless both tiers are 6, 7 or 8. -/
theorem Palette.colorOf_agrees_apply :
    (∀ (α : Type) [Scalar α] [GamutMap α] (palette : Palette α) (text : String)
        (intensity : Intensity),
      let reading := Reading.ofText palette text
      reading.lightness.total = intensity.lightness →
      reading.saturation.total = intensity.saturation →
      AgreeUpToGamut reading.saturation.total (palette.colorOf text)
        (intensity.apply reading.base)) ∧
    ∀ (K : Type) [Field K] [LinearOrder K] [IsStrictOrderedRing K] [ColorModel K] [GamutMap K]
        (palette : Palette K) (target : Color K) (length : ℕ) (found : Match K),
      (∀ name ∈ palette.names, Adjective.ofWord? name = none) →
      palette.search? target length = .ok (some found) →
      ¬ (found.intensity.saturationTier = found.intensity.lightnessTier ∧
        6 ≤ found.intensity.saturationTier) →
      let text := found.text palette.candidateNames.toArray
      (Reading.ofText palette text).saturation.total = found.intensity.saturation ∧
      AgreeUpToGamut found.intensity.saturation (palette.colorOf text)
        (found.intensity.apply
          (Color.mix (Search.colorsAt palette.candidates found.indices))) := by
  constructor
  · intro α _ _ palette text intensity reading hlightness hsaturation
    exact Reading.color_agrees_apply hlightness hsaturation
  · intro K _ _ _ _ _ palette target length found hshape hfound htiers text
    obtain ⟨hlightness, hsaturation, hbase⟩ := palette.ofText_text_totals hshape
      (isTuple_of_search?_eq_some hfound).2 htiers
    refine ⟨hsaturation, ?_⟩
    rw [← hsaturation, ← hbase]
    exact Reading.color_agrees_apply hlightness hsaturation

/-- Reading "light ruby" agrees with applying an intensity to ruby in floats, and reading the
description of black in standard colors agrees with the search over the reals. -/
theorem Palette.colorOf_agrees_apply_standard :
    (let palette : Palette Float := standard
      let base := (Reading.ofText palette "light ruby").base
      palette.colorOf "light ruby" = ((⟨41, by decide⟩ : Intensity).apply base).toGamut) ∧
    (let palette : Palette ℝ := standard
      ∃ found, palette.search? (Color.ofBytes ⟨0, 0, 0⟩) 1 = .ok (some found) ∧
        found.intensity = Intensity.first ∧
        palette.colorOf (found.text palette.candidateNames.toArray) =
          (found.intensity.apply
            (Color.mix (Search.colorsAt palette.candidates found.indices))).toGamut) := by
  constructor
  · intro palette base
    have hagree := colorOf_agrees_apply.1 Float palette "light ruby" ⟨41, by decide⟩
      (by decide +kernel) (by decide +kernel)
    exact hagree.2 (by decide +kernel)
  · intro palette
    have hentry : ("black", Color.ofBytes ⟨0, 0, 0⟩) ∈ palette.entries := List.mem_cons_self
    have halpha : (0.0 : ℝ) < (Color.ofBytes ⟨0, 0, 0⟩ : Color ℝ).alpha := by
      norm_num [Color.ofBytes, Color.ofRGB, Color.solid, Color.make, unit, clamp, numberOrZero]
    have hblack := Color.isBlack_ofBytes_zero
    have hfit : palette.Fits (max 1 1) := by
      have hfew : palette.candidates.length ≤ 53 := by
        rw [length_candidates]
        exact List.countP_le_length
      refine ⟨?_, fun _ => by decide⟩
      rw [max_self, pow_one]
      exact hfew.trans (by decide)
    obtain ⟨found, hfound, hfirst⟩ := search?_black hentry halpha hblack
      (Color.isNormal_make _ _) hblack hfit
    have hsaturation : (Intensity.first.saturation : ℝ) < 0.0 := by
      rw [Intensity.saturation_eq_div,
        show Phrase.saturation Intensity.first.saturationTier = -70 by decide]
      norm_num
    have hagree := (colorOf_agrees_apply.2 ℝ palette _ 1 found ofWord?_standard hfound
      (by rw [hfirst]; decide)).2
    refine ⟨found, hfound, hfirst, hagree.2 ?_⟩
    rw [hfirst]
    exact hsaturation.not_gt

end ColorWords
