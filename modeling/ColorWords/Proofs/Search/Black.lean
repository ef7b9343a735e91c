import ColorWords.Proofs.Intensity
import ColorWords.Proofs.Scalar.Real
import ColorWords.Proofs.Search.Optimal

/-!
# Searching for black

In exact arithmetic a mix of blacks is black, and darkening and dulling keep it. A search for
black among colors with black itself therefore finds the very first intensity, which darkens
and dulls the most.
-/

namespace ColorWords

open Scalar

variable {K : Type} [Field K] [LinearOrder K]

/-- The color is black, with any alpha. -/
def Color.IsBlack (c : Color K) : Prop := c.lab = ⟨0, 0, 0⟩

/-- The intensity with the first code. -/
def Intensity.first : Intensity := ⟨⟨0, by decide⟩⟩

namespace Color

/-- There is no distance between blacks. -/
theorem IsBlack.distanceSquared {c d : Color K} (hc : c.IsBlack) (hd : d.IsBlack) :
    c.distanceSquared d = 0 := by
  rw [IsBlack] at hc hd
  simp [Color.distanceSquared, Lab.distanceSquared, hc, hd]

/-- The coordinates added up so far are all zero. -/
def Blend.IsBlack (blend : Blend K) : Prop :=
  blend.lightness.total = 0 ∧ blend.a.total = 0 ∧ blend.b.total = 0

/-- Adding black leaves the sums at zero. -/
theorem Blend.IsBlack.add {blend : Blend K} (h : blend.IsBlack) {c : Color K} (hc : c.IsBlack) :
    (blend.add c).IsBlack := by
  obtain ⟨hlightness, ha, hb⟩ := h
  rw [Color.IsBlack] at hc
  refine ⟨?_, ?_, ?_⟩ <;> rw [Blend.add, Accumulator.total_add, hc, add_zero] <;> assumption

/-- Adding any number of blacks leaves the sums at zero. -/
theorem Blend.IsBlack.foldl {colors : List (Color K)} (hcolors : ∀ c ∈ colors, c.IsBlack)
    {blend : Blend K} (h : blend.IsBlack) : (colors.foldl Blend.add blend).IsBlack := by
  induction colors generalizing blend with
  | nil => exact h
  | cons c rest ih =>
    exact ih (fun d hd => hcolors d (List.mem_cons_of_mem _ hd))
      (h.add (hcolors c List.mem_cons_self))

variable [IsStrictOrderedRing K]

/-- A color made from zero coordinates is black. -/
theorem isBlack_make (alpha : K) : (make ⟨0, 0, 0⟩ alpha).IsBlack := by
  have hunit : unit (0 : K) = 0 := by norm_num [unit, clamp, numberOrZero]
  have haxis : Lab.axis (0 : K) = 0 := by
    norm_num [Lab.axis, Lab.axisLimit, clamp, numberOrZero]
  rw [IsBlack, make, Lab.normalized, hunit, haxis]

/-- A mix of blacks is black. -/
theorem isBlack_mix {colors : List (Color K)} (h : ∀ c ∈ colors, c.IsBlack) :
    (mix colors).IsBlack := by
  have hzero : (Blend.zero : Blend K).IsBlack := by
    norm_num [Blend.IsBlack, Blend.zero, Accumulator.zero, Accumulator.total]
  obtain ⟨hlightness, ha, hb⟩ := hzero.foldl h
  unfold mix Blend.color
  split
  · norm_num [IsBlack, neutral]
  · simp only [hlightness, ha, hb, zero_div]
    exact isBlack_make _

/-- Darkening keeps black. -/
theorem IsBlack.darken {c : Color K} (hc : c.IsBlack) (amount : K) : (c.darken amount).IsBlack := by
  rw [IsBlack] at hc
  simp only [Color.darken, hc, zero_mul]
  exact isBlack_make _

/-- Dulling keeps black. -/
theorem IsBlack.dullen {c : Color K} (hc : c.IsBlack) (amount : K) : (c.dullen amount).IsBlack := by
  rw [IsBlack] at hc
  simp only [Color.dullen, scaleChroma, hc, zero_mul]
  exact isBlack_make _

/-- The first intensity keeps black, since it darkens and dulls. -/
theorem IsBlack.apply_first [GamutMap K] {c : Color K} (hc : c.IsBlack) :
    (Intensity.first.apply c).IsBlack := by
  have hlightness : (Intensity.first.lightness : K) = -60 / 100 := by
    rw [Intensity.lightness_eq_div,
      show Phrase.lightness Intensity.first.lightnessTier = -60 by decide]
    norm_num
  have hsaturation : (Intensity.first.saturation : K) = -70 / 100 := by
    rw [Intensity.saturation_eq_div,
      show Phrase.saturation Intensity.first.saturationTier = -70 by decide]
    norm_num
  have happly : Intensity.first.apply c = (c.darken (60 / 100)).dullen (70 / 100) := by
    unfold Intensity.apply shiftLightness
    rw [hlightness, hsaturation]
    norm_num
  rw [happly]
  exact (hc.darken _).dullen _

end Color

/-- Over the reals the zero bytes are converted to black. -/
theorem Color.isBlack_ofBytes_zero : (ofBytes ⟨0, 0, 0⟩ : Color ℝ).IsBlack := by
  have hlinear : Conversion.linearize (0 : ℝ) = 0 := by
    norm_num [Conversion.linearize, magnitude]
  have hroot : Elementary.cubeRoot (0 : ℝ) = 0 := by simp [Elementary.cubeRoot]
  have hlab : ColorModel.ofRGB (RGB.ofBytes ⟨0, 0, 0⟩) = (⟨0, 0, 0⟩ : Lab ℝ) := by
    simp [ColorModel.ofRGB, RGB.ofBytes, RGB.map, RGB.toLab, hlinear, hroot,
      Conversion.xyzOfLinear, Conversion.conesOfXyz, Conversion.labOfRoots, Triple.transform,
      Triple.dot, Triple.map]
  rw [ofBytes, ofRGB, solid, hlab]
  exact isBlack_make _

/-- All other intensities come after the first one. -/
theorem Intensity.first_lt_of_ne {intensity : Intensity} (h : intensity ≠ first) :
    first.code < intensity.code := by
  refine Fin.lt_def.mpr (Nat.pos_of_ne_zero fun hzero => h ?_)
  obtain ⟨code⟩ := intensity
  exact congrArg Intensity.mk (Fin.ext hzero)

/-- A search for black among candidates with black finds the first intensity. -/
theorem Palette.search?_black [IsStrictOrderedRing K] [ColorModel K] [GamutMap K]
    {palette : Palette K} {entry : String × Color K} (hentry : entry ∈ palette.entries)
    (halpha : 0.0 < entry.2.alpha) (hblack : entry.2.IsBlack) {target : Color K}
    (htarget : target.IsNormal) (hblackTarget : target.IsBlack) {length : ℕ}
    (hfit : palette.Fits (max length 1)) :
    ∃ found, palette.search? target length = .ok (some found) ∧
      found.intensity = Intensity.first := by
  have hmem : entry.2 ∈ palette.candidates :=
    List.mem_map_of_mem ((palette.mem_byHue entry).mpr ⟨hentry, halpha⟩)
  obtain ⟨i, hi, hget⟩ := List.getElem_of_mem hmem
  have hcandidates : palette.candidates ≠ [] := List.ne_nil_of_mem hmem
  have hlength := (le_max_left _ _).trans (hfit.le_maxSelection hcandidates)
  obtain ⟨found, hfound, -, hdistance, hmin⟩ :=
    Search.best?_spec hcandidates htarget (max length 1)
  refine ⟨found, by rw [search?_of_ne_nil hcandidates hlength, hfound], ?_⟩
  -- The first intensity with black throughout has no distance, so nothing after it wins.
  let blacks := List.replicate (max length 1) i
  have htuple : IsTuple palette.candidates.length (max length 1) blacks :=
    ⟨List.length_replicate, fun j hj => (List.eq_of_mem_replicate hj).trans_lt hi⟩
  have hscore : Search.tupleScore palette.candidates target Intensity.first blacks = 0 := by
    refine Color.IsBlack.distanceSquared (Color.IsBlack.apply_first (Color.isBlack_mix ?_))
      hblackTarget
    intro c hc
    obtain ⟨j, hj, rfl⟩ := List.mem_map.mp hc
    rwa [List.eq_of_mem_replicate hj, List.getD_eq_getElem _ _ hi, hget]
  have htried := Search.ofDigits_lt_tupleCount htuple hfit.tuples
  by_contra hne
  have hless := (hmin Intensity.first blacks htuple htried).2
    (Or.inl (Intensity.first_lt_of_ne hne))
  rw [hscore, hdistance] at hless
  exact absurd hless (Color.distanceSquared_nonneg _ _).not_gt

end ColorWords
