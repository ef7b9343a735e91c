import ColorWords.Proofs.Color.Gamut
import ColorWords.Proofs.Scalar.Binary64Signs

/-!
# Gamut mapping of float colors

The laws that gamut mapping depends on hold of 64-bit floats. The one about the gamut test takes
some care, since the upper end of the test is a rounded sum: a float above it differs from any
float in the unit range by more than the slack, because the next float after it does.
-/

namespace ColorWords

open Scalar Binary64 Float.Model Float.Model.UnpackedFloat

namespace Binary64

/-- A magnitude up to the slack is that of a float between the slack and its negative. -/
theorem within_of_magnitude_le {x : Float} (h : magnitude x ≤ RGB.slack) :
    Within (-RGB.slack) RGB.slack x := by
  have hslack : (0.0 : Float) ≤ RGB.slack := by decide
  have hneg : (-RGB.slack : Float) ≤ 0.0 := by decide
  unfold magnitude at h
  split at h
  · next hx =>
    exact ⟨(neg_le_iff x _).mp h, OrderedScalar.le_trans (OrderedScalar.le_of_lt hx) hslack⟩
  · next hx =>
    have hzero : (0.0 : Float) ≤ x := OrderedScalar.le_of_not_lt (OrderedScalar.number_left h)
      (OrderedScalar.number_left hslack) hx
    exact ⟨OrderedScalar.le_trans hneg hzero, h⟩

/-- A float that differs from one in the unit range by no more than the slack is in range. -/
theorem inRange_of_magnitude_le {x y : Float} (hx : Within 0.0 1.0 x)
    (hy : magnitude (y - x) ≤ RGB.slack) : RGB.inRange y = true := by
  have hclose := within_of_magnitude_le hy
  have hnegOne : (-1.0 : Float) ≤ -RGB.slack := by decide
  have hone : (RGB.slack : Float) ≤ 1.0 := by decide
  obtain ⟨p, hp, hp0, hp1⟩ := exists_hasValue_of_within hasValue_zero hasValue_one hx
  obtain ⟨d, hd, -⟩ := exists_hasValue_of_within hasValue_one.neg hasValue_one
    ⟨OrderedScalar.le_trans hnegOne hclose.1, OrderedScalar.le_trans hclose.2 hone⟩
  rcases exists_hasValue_or y with ⟨q, hq⟩ | ⟨sign, hinfinite⟩ | hnone
  · have hrounds := hq.rounds_sub hp
    have hnumber : y ≤ y := (hq.le_iff hq).mpr le_rfl
    rw [RGB.inRange, Bool.and_eq_true, decide_eq_true_eq, decide_eq_true_eq]
    constructor
    · -- The difference is at most the float itself.
      have hle : y - x ≤ y := (hrounds y q hq).1 (by linarith)
      exact OrderedScalar.le_trans hclose.1 hle
    · by_contra hbeyond
      have htop : floatKey? (1.0 + RGB.slack) =
          some (toLex (1, toLex (-52, 4503604130970123))) := by decide +kernel
      have hnext : floatKey? 1.0000010000000002 =
          some (toLex (1, toLex (-52, 4503604130970124))) := by decide +kernel
      have hstep : floatKey? (1.0000010000000002 - 1.0) =
          some (toLex (1, toLex (-72, 4722366483529728))) := by decide +kernel
      have hfar : ¬ (1.0000010000000002 - 1.0 : Float) ≤ RGB.slack := by decide +kernel
      have htopNumber : (1.0 + RGB.slack : Float) ≤ 1.0 + RGB.slack :=
        (hasValue_of_floatKey? htop).le_iff (hasValue_of_floatKey? htop) |>.mpr le_rfl
      have hlt := OrderedScalar.lt_of_not_le htopNumber hnumber hbeyond
      have hge := (hasValue_of_floatKey? hnext).le_iff hq |>.mp (le_of_lt_of_next htop hnext hlt)
      have hdifference := (hrounds _ _ (hasValue_of_floatKey? hstep)).2 (by
        norm_num at hge ⊢
        linarith)
      exact hfar (OrderedScalar.le_trans hdifference hclose.2)
  · have hfinite := hd.1
    rw [unpack_sub_of_infinity hp hinfinite] at hfinite
    exact hfinite.elim
  · have hfinite := hd.1
    rw [unpack_sub_of_notANumber hnone] at hfinite
    exact hfinite.elim

end Binary64

/-- The laws hold of 64-bit floats. -/
instance GamutScalar.instFloat : GamutScalar Float where
  zero_lt_one := by decide
  middle_nonneg hx hy := by
    rw [zero_le_iff] at hx hy ⊢
    exact hasSign_middle hx hy
  middle_nonpos hx hy := by
    rw [le_zero_iff] at hx hy ⊢
    exact hasSign_middle hx hy
  inRange_of_close hx hy := inRange_of_magnitude_le hx hy
  saturationAt_pos {tier} htier := by
    rw [← Intensity.saturationAt_min]
    rw [Phrase.neutralTier] at htier
    have hcases : min tier 8 = 5 ∨ min tier 8 = 6 ∨ min tier 8 = 7 ∨ min tier 8 = 8 := by omega
    rcases hcases with h | h | h | h <;> rw [h] <;> decide +kernel

end ColorWords
