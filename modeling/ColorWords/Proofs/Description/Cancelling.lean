import ColorWords.Proofs.Description.Totals

/-!
# Adjectives that cancel

The floats of hundredths are a little off, and what they are off by adds up exactly. So adjectives
whose changes of saturation cancel in pairs leave a color neither enriched nor dullened. Others that
cancel only as hundredths leave something of either sign. The color is then dullened a tiny bit, or
it is enriched a tiny bit and escapes the mapping into the gamut.
-/

namespace ColorWords

open Binary64 Description Scalar

/-- Opposite numbers of hundredths have opposite excess. -/
theorem Binary64.excess_neg (z : ℤ) : excess (-z) = -excess z := by
  rw [excess, excess, Int.sign_neg, Int.natAbs_neg, neg_mul]

/-- Numbers that cancel in pairs still do so after an odd function. -/
theorem sum_map_eq_zero_of_perm_neg {numbers : List ℤ}
    (h : numbers.Perm (numbers.map fun z => -z)) {f : ℤ → ℤ} (hf : ∀ z, f (-z) = -f z) :
    (numbers.map f).sum = 0 := by
  have hsum := (h.map f).sum_eq
  have hneg : (numbers.map fun z => -z).map f = (numbers.map f).map fun z => -z := by
    simp [hf]
  rw [hneg, ← List.sum_neg] at hsum
  omega

/-- The way a color is changed depends on the sign of the exact sum of saturations. -/
theorem Palette.colorOf_eq_of_exactTotal (palette : Palette Float) {text : String}
    (hlength : (adjectivesOf (words text)).length ≤ 2 ^ 25) :
    let reading := Reading.ofText palette text
    let shifted := reading.base.shiftLightness reading.lightness.total
    let exact := Adjective.exactTotal Adjective.saturation (adjectivesOf (words text))
    (exact = 0 → palette.colorOf text = shifted.toGamut) ∧
      (0 < exact → palette.colorOf text = shifted.enrich reading.saturation.total) ∧
      (exact < 0 →
        palette.colorOf text = (shifted.dullen (-reading.saturation.total)).toGamut) := by
  intro reading shifted exact
  have hexact : reading.saturation.IsExact exact := (Reading.isExact_ofText palette hlength).2
  have hpositive := hexact.zero_lt_total_iff
  have hnegative := hexact.total_lt_zero_iff
  have hcolor : palette.colorOf text =
      if 0.0 < reading.saturation.total then shifted.enrich reading.saturation.total
      else if reading.saturation.total < 0.0 then
        (shifted.dullen (-reading.saturation.total)).toGamut
      else shifted.toGamut := rfl
  rw [hcolor]
  refine ⟨fun hzero => ?_, fun hpos => if_pos (hpositive.mpr hpos), fun hneg => ?_⟩
  · rw [if_neg (fun h => (hpositive.mp h).ne' hzero), if_neg fun h => (hnegative.mp h).ne hzero]
  · rw [if_neg (fun h => (hpositive.mp h).not_gt hneg), if_pos (hnegative.mpr hneg)]

/-- In floats, adjectives whose saturations cancel in pairs take the neutral path. Where the
hundredths cancel in another way, the path is that of the sign of what the floats are beyond them,
so that the color may also be enriched without being mapped into the gamut. -/
theorem Palette.colorOf_of_cancelling (palette : Palette Float) (text : String)
    (hlength : (adjectivesOf (words text)).length ≤ 2 ^ 25) :
    let reading := Reading.ofText palette text
    let shifted := reading.base.shiftLightness reading.lightness.total
    let saturations := (adjectivesOf (words text)).map Adjective.saturation
    (saturations.Perm (saturations.map fun z => -z) → palette.colorOf text = shifted.toGamut) ∧
      (saturations.sum = 0 →
        ((saturations.map excess).sum = 0 → palette.colorOf text = shifted.toGamut) ∧
          (0 < (saturations.map excess).sum →
            palette.colorOf text = shifted.enrich reading.saturation.total) ∧
          ((saturations.map excess).sum < 0 →
            palette.colorOf text = (shifted.dullen (-reading.saturation.total)).toGamut)) := by
  intro reading shifted saturations
  obtain ⟨hneutral, henrich, hdullen⟩ := palette.colorOf_eq_of_exactTotal hlength
  have hexact : saturations.sum = 0 →
      Adjective.exactTotal Adjective.saturation (adjectivesOf (words text)) =
        (saturations.map excess).sum / (5 * 2 ^ 55) := by
    intro hsum
    rw [Adjective.exactTotal_eq (List.mem_pair.mpr (Or.inr rfl)), hsum, List.map_map]
    simp [Function.comp_def]
  have hpos : (0 : ℝ) < 5 * 2 ^ 55 := by positivity
  refine ⟨fun hpairs => ?_, fun hsum => ⟨fun hzero => ?_, fun hbeyond => ?_, fun hbelow => ?_⟩⟩
  · have hsum : saturations.sum = 0 := by
      simpa using sum_map_eq_zero_of_perm_neg hpairs (f := id) fun _ => rfl
    refine hneutral ?_
    rw [hexact hsum, sum_map_eq_zero_of_perm_neg hpairs excess_neg, Int.cast_zero, zero_div]
  · exact hneutral (by rw [hexact hsum, hzero, Int.cast_zero, zero_div])
  · exact henrich (by rw [hexact hsum]; exact div_pos (by exact_mod_cast hbeyond) hpos)
  · exact hdullen (by rw [hexact hsum]; exact div_neg_of_neg_of_pos (by exact_mod_cast hbelow) hpos)

/-- A palette with one color, which is far outside the gamut and as light as white. -/
def Palette.loud : Palette Float :=
  ⟨⟨[("loud", Color.solid ⟨1.0, 0.3, 0.15⟩)], []⟩, by decide +kernel⟩

/-- "rich" and "dull" cancel as a pair, while "richest" and "richer" outweigh "dullmost". -/
theorem Palette.colorOf_of_cancelling_loud :
    let pair := Reading.ofText loud "rich dull loud"
    let triple := Reading.ofText loud "richest richer dullmost loud"
    loud.colorOf "rich dull loud" = (pair.base.shiftLightness pair.lightness.total).toGamut ∧
      loud.colorOf "richest richer dullmost loud" =
        (triple.base.shiftLightness triple.lightness.total).enrich triple.saturation.total := by
  intro pair triple
  have hpair := colorOf_of_cancelling loud "rich dull loud" (by decide +kernel)
  have htriple := colorOf_of_cancelling loud "richest richer dullmost loud" (by decide +kernel)
  exact ⟨hpair.1 (by decide +kernel), (htriple.2 (by decide +kernel)).2.1 (by decide +kernel)⟩

/-- Changes that cancel as hundredths do not always take the neutral path: this color stays outside
the gamut, which it would be mapped into as white. -/
theorem Palette.colorOf_loud_ne_toGamut :
    let text := "richest richer dullmost loud"
    let reading := Reading.ofText loud text
    ((adjectivesOf (words text)).map Adjective.saturation).sum = 0 ∧
      loud.colorOf text ≠ (reading.base.shiftLightness reading.lightness.total).toGamut := by
  intro text reading
  have hcolors : 0.0 < (loud.colorOf text).lab.a ∧
      (reading.base.shiftLightness reading.lightness.total).toGamut.lab.a ≤ 0.0 := by
    decide +kernel
  refine ⟨by decide +kernel, fun heq => ?_⟩
  rw [heq] at hcolors
  exact OrderedScalar.not_le_of_lt hcolors.1 hcolors.2

end ColorWords
