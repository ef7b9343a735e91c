import ColorWords.Proofs.Color.FloatHue
import ColorWords.Proofs.Palette.Sorted
import ColorWords.Proofs.Scalar.Real

/-!
# Grays

Whether a color is a gray is read off its polar form, which has no hue and a chroma of zero if both
axes are powerless. The norm of two powerless axes is far below the limit for grays, so the box of
powerless axes lies within the disc of grays, and a color is a gray exactly if its chroma is at most
the limit. All other colors have a bearing, and with it a hue that is a number. So the order by hue
compares numbers wherever it compares hues.

This holds in exact arithmetic and of floats. Their norm may be the root of the sum of squares, each
operation rounded, or the exact norm, rounded once.
-/

namespace ColorWords

open Scalar Binary64

namespace Color

/-! ## Colors with powerless axes -/

section Powerless

variable {α : Type} [Scalar α] {c d : Color α}

/-- Both axes are powerless. -/
def IsPowerless (c : Color α) : Prop :=
  magnitude c.lab.a < Lab.powerless ∧ magnitude c.lab.b < Lab.powerless

variable [Elementary α]

/-- Grays are the colors with powerless axes or a chroma up to the limit. -/
theorem isGray_iff (c : Color α) : c.isGray = true ↔ c.IsPowerless ∨ c.chroma ≤ grayLimit := by
  change (c.lab.toPolar.hue.isNone || decide (c.lab.toPolar.chroma ≤ grayLimit)) = true ↔ _
  unfold Lab.toPolar IsPowerless
  split
  · next hpowerless => exact iff_of_true rfl (Or.inl hpowerless)
  · next hpowerless =>
    rw [or_iff_right hpowerless]
    exact decide_eq_true_iff

/-- If powerless axes have a norm up to the limit, then grays are the colors with a chroma up to the
limit. -/
theorem isGray_iff_of_powerless (h : c.IsPowerless → c.chroma ≤ grayLimit) :
    c.isGray = true ↔ c.chroma ≤ grayLimit := by
  rw [isGray_iff]
  exact or_iff_right_of_imp h

/-- What is no gray has the hue that its bearing leads to. -/
theorem hue_of_not_isGray (h : c.isGray = false) :
    c.hue = some (hueOfBearing (Elementary.bearing c.lab.b c.lab.a)) := by
  change c.lab.toPolar.hue = _
  unfold Lab.toPolar
  split
  · next hpowerless =>
    have hgray := (isGray_iff c).mpr (Or.inl hpowerless)
    exact absurd hgray (Bool.eq_false_iff.mp h)
  · rfl

end Powerless

/-! ## Comparing by hue -/

section Comparison

variable {α : Type} [Scalar α] [ColorModel α] {c d : Color α}

/-- What comparing two colors by hue leads to. Grays come first and are compared by lightness. Hues
are compared if neither color is a gray, and then they are numbers. -/
inductive ComparesByHue (c d : Color α) : Ordering → Prop where
  | grays (hc : c.isGray = true) (hd : d.isGray = true) :
      ComparesByHue c d (totalCompare c.lab.lightness d.lab.lightness)
  | grayFirst (hc : c.isGray = true) (hd : d.isGray = false) : ComparesByHue c d .lt
  | grayLast (hc : c.isGray = false) (hd : d.isGray = true) : ComparesByHue c d .gt
  | hues {first second : α} (hc : c.isGray = false) (hd : d.isGray = false)
      (hfirst : c.hue = some first) (hsecond : d.hue = some second) (hnumber : first ≤ first)
      (hnumber' : second ≤ second) : ComparesByHue c d (totalCompare first second)

/-- Comparing by hue compares numbers if the hues of all colors but grays are numbers. -/
theorem comparesByHue (hc : c.isGray = false → ∃ hue, c.hue = some hue ∧ hue ≤ hue)
    (hd : d.isGray = false → ∃ hue, d.hue = some hue ∧ hue ≤ hue) :
    ComparesByHue c d (c.hueRank.order d.hueRank) := by
  have hrank {e : Color α} {hue : α} (hgray : e.isGray = false) (hhue : e.hue = some hue) :
      e.hueRank = .chromatic hue := by
    obtain ⟨hue', hhue', hrank⟩ := exists_hueRank_of_not_isGray hgray
    rw [hrank, Option.some.inj (hhue'.symm.trans hhue)]
  cases hcgray : c.isGray <;> cases hdgray : d.isGray
  · obtain ⟨first, hfirst, hnumber⟩ := hc hcgray
    obtain ⟨second, hsecond, hnumber'⟩ := hd hdgray
    rw [hrank hcgray hfirst, hrank hdgray hsecond]
    exact .hues hcgray hdgray hfirst hsecond hnumber hnumber'
  · obtain ⟨first, hfirst, -⟩ := hc hcgray
    rw [hrank hcgray hfirst, hueRank_of_isGray hdgray]
    exact .grayLast hcgray hdgray
  · obtain ⟨second, hsecond, -⟩ := hd hdgray
    rw [hueRank_of_isGray hcgray, hrank hdgray hsecond]
    exact .grayFirst hcgray hdgray
  · rw [hueRank_of_isGray hcgray, hueRank_of_isGray hdgray]
    exact .grays hcgray hdgray

end Comparison

/-! ## Norms and bearings -/

/-- The Euclidean norm is at most the sum of the absolute values. -/
theorem sqrt_le_abs_add_abs (p q : ℝ) : √(p * p + q * q) ≤ |p| + |q| := by
  have hnorm := Complex.norm_le_abs_re_add_abs_im ⟨p, q⟩
  rwa [Complex.norm_def, Complex.normSq_mk] at hnorm

/-- In exact arithmetic powerless axes have a norm up to the limit for grays. -/
theorem IsPowerless.chroma_le {c : Color ℝ} (h : c.IsPowerless) : c.chroma ≤ grayLimit := by
  obtain ⟨ha, hb⟩ := h
  rw [magnitude_eq_abs] at ha hb
  calc c.chroma ≤ |c.lab.a| + |c.lab.b| := sqrt_le_abs_add_abs _ _
    _ ≤ Lab.powerless + Lab.powerless := add_le_add ha.le hb.le
    _ ≤ grayLimit := by norm_num [Lab.powerless, grayLimit]

/-- Exact bearings are angles in degrees between half turns. -/
theorem bearing_bounds (b a : ℝ) :
    -180 < Elementary.bearing b a ∧ Elementary.bearing b a ≤ 180 := by
  have hpi := Real.pi_pos
  have hscale : 0 < 180 / Real.pi := by positivity
  change -180 < Complex.arg ⟨a, b⟩ * (180 / Real.pi) ∧ Complex.arg ⟨a, b⟩ * (180 / Real.pi) ≤ 180
  constructor
  · calc (-180 : ℝ) = -Real.pi * (180 / Real.pi) := by field_simp
      _ < Complex.arg ⟨a, b⟩ * (180 / Real.pi) :=
        mul_lt_mul_of_pos_right (Complex.neg_pi_lt_arg _) hscale
  · calc Complex.arg ⟨a, b⟩ * (180 / Real.pi) ≤ Real.pi * (180 / Real.pi) :=
        mul_le_mul_of_nonneg_right (Complex.arg_le_pi _) hscale.le
      _ = 180 := by field_simp

/-- Exact hues are at least zero and less than a full turn. -/
theorem hueOfBearing_bounds_of_exact {x : ℝ} (hlow : -180 < x) (hhigh : x ≤ 180) :
    0 ≤ hueOfBearing x ∧ hueOfBearing x < 360 := by
  have hzero : (0.0 : ℝ) = 0 := by norm_num
  have hturn : (360.0 : ℝ) = 360 := by norm_num
  unfold hueOfBearing
  rw [hzero, hturn]
  split
  · next hneg => constructor <;> linarith
  · next hneg => constructor <;> linarith

/-- In exact arithmetic what is no gray has a hue of at least zero and less than a full turn. -/
theorem exists_hue_of_exact {c : Color ℝ} (h : c.isGray = false) :
    ∃ hue, c.hue = some hue ∧ 0 ≤ hue ∧ hue < 360 := by
  obtain ⟨hlow, hhigh⟩ := bearing_bounds c.lab.b c.lab.a
  exact ⟨_, hue_of_not_isGray h, hueOfBearing_bounds_of_exact hlow hhigh⟩

/-! ## Floats -/

/-- The value of the magnitude below which axes are powerless. -/
theorem hasValue_powerless : HasValue Lab.powerless (7378697629483821 / 2 ^ 65) :=
  hasValue_of_key (-65) 7378697629483821 (by decide +kernel) (by norm_num)

/-- The value of the limit for grays. -/
theorem hasValue_grayLimit : HasValue grayLimit (5764607523034235 / 2 ^ 59) :=
  hasValue_of_key (-59) 5764607523034235 (by decide +kernel) (by norm_num)

/-- Powerless axes of a normal color stand for numbers of small magnitude. -/
theorem IsPowerless.exists_hasValue {c : Color Float} (h : c.IsPowerless) (hc : c.IsNormal) :
    ∃ p q, HasValue c.lab.a p ∧ HasValue c.lab.b q ∧ |p| ≤ 1 / 2 ^ 12 ∧ |q| ≤ 1 / 2 ^ 12 := by
  obtain ⟨p, hp, -⟩ := exists_hasValue_of_within hasValue_half.neg hasValue_half hc.a
  obtain ⟨q, hq, -⟩ := exists_hasValue_of_within hasValue_half.neg hasValue_half hc.b
  have hbound : (7378697629483821 / 2 ^ 65 : ℝ) ≤ 1 / 2 ^ 12 := by norm_num
  have ha := (hp.magnitude.lt_iff hasValue_powerless).mp h.1
  have hb := (hq.magnitude.lt_iff hasValue_powerless).mp h.2
  exact ⟨p, q, hp, hq, ha.le.trans hbound, hb.le.trans hbound⟩

/-- The root of the sum of squares, each operation rounded, is up to the limit for grays if the axes
are powerless. -/
theorem IsPowerless.chroma_le_of_sqrt {c : Color Float} (h : c.IsPowerless) (hc : c.IsNormal) :
    c.chroma ≤ grayLimit := by
  -- Powers of two above the squares and their sum are enough, since the limit is far away.
  have hsmall : HasValue 5.9604644775390625e-8 (1 / 2 ^ 24) :=
    hasValue_of_key (-76) (2 ^ 52) (by decide +kernel) (by norm_num)
  have htwice : HasValue 1.1920928955078125e-7 (1 / 2 ^ 23) :=
    hasValue_of_key (-75) (2 ^ 52) (by decide +kernel) (by norm_num)
  have hsquare {x : Float} {p : ℝ} (hx : HasValue x p) (hp : |p| ≤ 1 / 2 ^ 12) :
      Within 0.0 5.9604644775390625e-8 (x * x) := by
    refine hx.within_square hsmall ?_
    calc p * p = |p| * |p| := (abs_mul_abs_self p).symm
      _ ≤ 1 / 2 ^ 12 * (1 / 2 ^ 12) := mul_self_le_mul_self (abs_nonneg p) hp
      _ = 1 / 2 ^ 24 := by norm_num
  obtain ⟨p, q, ha, hb, hp, hq⟩ := h.exists_hasValue hc
  have hsum : Within 0.0 1.1920928955078125e-7 (c.lab.a * c.lab.a + c.lab.b * c.lab.b) :=
    within_add hsmall hsmall htwice (by norm_num) (hsquare ha hp) (hsquare hb hq)
  obtain ⟨s, hs, hs0, hsmax⟩ := exists_hasValue_of_within hasValue_zero htwice hsum
  refine (hs.rounds_sqrt hs0 grayLimit _ hasValue_grayLimit).1 (Real.sqrt_le_iff.mpr ⟨?_, ?_⟩)
  · norm_num
  · exact hsmax.trans (by norm_num)

section Functions

variable [Elementary Float] {c d : Color Float}

/-- The chroma compares with all floats as the Euclidean norm of the axes does. -/
def HasNorm (c : Color Float) : Prop :=
  ∀ p q, HasValue c.lab.a p → HasValue c.lab.b q → Rounds √(p * p + q * q) c.chroma

/-- The bearing of the color is an angle with the sign of the blue-yellow axis. -/
def HasBearing (c : Color Float) : Prop :=
  IsBearing c.lab.b (Elementary.bearing c.lab.b c.lab.a)

/-- Powerless axes of a normal color have a norm up to the limit for grays. -/
theorem IsPowerless.chroma_le_of_hasNorm (h : c.IsPowerless) (hc : c.IsNormal)
    (hnorm : c.HasNorm) : c.chroma ≤ grayLimit := by
  obtain ⟨p, q, ha, hb, hp, hq⟩ := h.exists_hasValue hc
  refine (hnorm p q ha hb grayLimit _ hasValue_grayLimit).1 ?_
  calc √(p * p + q * q) ≤ |p| + |q| := sqrt_le_abs_add_abs p q
    _ ≤ 1 / 2 ^ 12 + 1 / 2 ^ 12 := add_le_add hp hq
    _ ≤ 5764607523034235 / 2 ^ 59 := by norm_num

/-- What is no gray has a hue from zero to a full turn. -/
theorem HasBearing.exists_hue (hbearing : c.HasBearing) (h : c.isGray = false) :
    ∃ hue, c.hue = some hue ∧ Within 0.0 360.0 hue :=
  ⟨_, hue_of_not_isGray h, (hueOfBearing_bounds hbearing.within).1⟩

/-- Comparing two colors by hue compares numbers. -/
theorem HasBearing.comparesByHue (hc : c.HasBearing) (hd : d.HasBearing) :
    ComparesByHue c d (c.hueRank.order d.hueRank) := by
  have hnumber {e : Color Float} (he : e.HasBearing) (hgray : e.isGray = false) :
      ∃ hue, e.hue = some hue ∧ hue ≤ hue := by
    obtain ⟨hue, hhue, hwithin⟩ := he.exists_hue hgray
    exact ⟨hue, hhue, OrderedScalar.number_left hwithin.2⟩
  exact Color.comparesByHue (hnumber hc) (hnumber hd)

end Functions

/-- A color is a gray exactly if its chroma is at most the limit, although the polar form that
decides it has a chroma of zero and no hue if both axes are powerless. Every other color has a hue,
which is a number, and the order by hue compares hues of such colors only. In exact arithmetic this
holds of all colors, and hues are less than a full turn. For normal colors of floats the first part
holds with the functions of the library, and with any others if the chroma compares as the Euclidean
norm does; the second part holds with any functions if bearings are angles. -/
theorem isGray_iff_chroma_le :
    (∀ c : Color ℝ,
      (c.isGray = true ↔ c.chroma ≤ 0.01) ∧
      (c.isGray = false → ∃ hue, c.hue = some hue ∧ 0 ≤ hue ∧ hue < 360) ∧
      ∀ d : Color ℝ, ComparesByHue c d (c.hueRank.order d.hueRank)) ∧
    (∀ c : Color Float, c.IsNormal → (c.isGray = true ↔ c.chroma ≤ 0.01)) ∧
    ∀ [Elementary Float] (c : Color Float), c.IsNormal →
      (c.HasNorm → (c.isGray = true ↔ c.chroma ≤ 0.01)) ∧
      (c.HasBearing →
        (c.isGray = false → ∃ hue, c.hue = some hue ∧ Within 0.0 360.0 hue) ∧
        ∀ d : Color Float, d.HasBearing → ComparesByHue c d (c.hueRank.order d.hueRank)) := by
  refine ⟨fun c => ?_, fun c hc => ?_, fun c hc => ⟨fun hnorm => ?_, fun hbearing => ?_⟩⟩
  · have hnumber (e : Color ℝ) (hgray : e.isGray = false) :
        ∃ hue, e.hue = some hue ∧ hue ≤ hue := by
      obtain ⟨hue, hhue, -⟩ := exists_hue_of_exact hgray
      exact ⟨hue, hhue, le_refl hue⟩
    exact ⟨isGray_iff_of_powerless IsPowerless.chroma_le, exists_hue_of_exact,
      fun d => comparesByHue (hnumber c) (hnumber d)⟩
  · exact isGray_iff_of_powerless fun hpowerless => hpowerless.chroma_le_of_sqrt hc
  · exact isGray_iff_of_powerless fun hpowerless => hpowerless.chroma_le_of_hasNorm hc hnorm
  · exact ⟨hbearing.exists_hue, fun _ hd => hbearing.comparesByHue hd⟩

/-- The functions of floats with a bearing that is right for colors with two positive axes that are
the same. -/
@[reducible] def diagonalBearings : Elementary Float :=
  { (inferInstance : Elementary Float) with bearing _ _ := 45.0 }

/-- With these functions the norm of a color on the diagonal is right if the sum of the squares of
its axes is not rounded. -/
theorem hasNorm_diagonal {c : Color Float} {p : ℝ} (ha : HasValue c.lab.a p)
    (hb : HasValue c.lab.b p)
    (hsum : HasValue (c.lab.a * c.lab.a + c.lab.b * c.lab.b) (p * p + p * p)) :
    @HasNorm diagonalBearings c := by
  intro p' q' ha' hb'
  obtain rfl : p = p' := ha.2.symm.trans ha'.2
  obtain rfl : p = q' := hb.2.symm.trans hb'.2
  exact hsum.rounds_sqrt (add_nonneg (mul_self_nonneg p) (mul_self_nonneg p))

/-- With these functions a color with an axis that is not negative has a bearing. -/
theorem hasBearing_diagonal {c : Color Float} (h : isNegative c.lab.b = false) :
    @HasBearing diagonalBearings c := by
  have hsign : isNegative 45.0 = false := by decide +kernel
  have hwithin : Within (-180.0) 180.0 (45.0 : Float) := ⟨by decide +kernel, by decide +kernel⟩
  exact ⟨hwithin, hsign.trans h.symm⟩

/-- A color with powerless axes on the diagonal is a gray and has a low chroma, and a color further
away from zero has a high chroma and a hue. -/
theorem isGray_iff_chroma_le_diagonal :
    let _ := diagonalBearings
    let c : Color Float := solid ⟨0.5, 0.0001220703125, 0.0001220703125⟩
    let d : Color Float := solid ⟨0.5, 0.25, 0.25⟩
    c.IsNormal ∧ d.IsNormal ∧ c.HasNorm ∧ d.HasNorm ∧ c.HasBearing ∧ d.HasBearing ∧
      c.hue = none ∧ c.isGray = true ∧ c.chroma ≤ 0.01 ∧
      d.isGray = false ∧ ¬ d.chroma ≤ 0.01 ∧ (∃ hue, d.hue = some hue ∧ Within 0.0 360.0 hue) ∧
      ComparesByHue c d (c.hueRank.order d.hueRank) := by
  intro _ c d
  have hc : c.IsNormal := isNormal_make _ _
  have hd : d.IsNormal := isNormal_make _ _
  have hcnorm : c.HasNorm := by
    have haxis : HasValue c.lab.a (1 / 2 ^ 13) :=
      hasValue_of_key (-65) (2 ^ 52) (by decide +kernel) (by norm_num)
    refine hasNorm_diagonal haxis haxis ?_
    exact hasValue_of_key (-77) (2 ^ 52) (by decide +kernel) (by norm_num)
  have hdnorm : d.HasNorm := by
    have haxis : HasValue d.lab.a (1 / 4) :=
      hasValue_of_key (-54) (2 ^ 52) (by decide +kernel) (by norm_num)
    refine hasNorm_diagonal haxis haxis ?_
    exact hasValue_of_key (-55) (2 ^ 52) (by decide +kernel) (by norm_num)
  have hcbearing : c.HasBearing := hasBearing_diagonal (by decide +kernel)
  have hdbearing : d.HasBearing := hasBearing_diagonal (by decide +kernel)
  obtain ⟨-, -, hfunctions⟩ := isGray_iff_chroma_le
  obtain ⟨hciff, hcompare⟩ := hfunctions c hc
  obtain ⟨hdiff, hhue⟩ := hfunctions d hd
  have hcgray : c.isGray = true := by decide +kernel
  have hdgray : d.isGray = false := by decide +kernel
  refine ⟨hc, hd, hcnorm, hdnorm, hcbearing, hdbearing, by decide +kernel, hcgray,
    (hciff hcnorm).mp hcgray, hdgray, ?_, (hhue hdbearing).1 hdgray,
    (hcompare hcbearing).2 d hdbearing⟩
  rw [← hdiff hdnorm, hdgray]
  exact Bool.false_ne_true

end Color

end ColorWords
