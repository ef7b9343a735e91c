import ColorWords.Proofs.Color.Alike
import ColorWords.Proofs.Color.FloatDistance
import ColorWords.Proofs.Color.Normal
import ColorWords.Proofs.Scalar.Binary64Fields

/-!
# Hues of float colors

A hue counts from 0, so bearings below zero are increased by a full turn. The sum is rounded, and
360 is even among the floats around it. So a bearing below zero by no more than half of the distance
between 360 and the float before is lost, and the hue is 360. All other hues are less than 360.
-/

namespace ColorWords

open Scalar Binary64

namespace Binary64

/-- The value of a half turn. -/
theorem hasValue_half_turn : HasValue 180.0 180 :=
  hasValue_of_key (-45) 6333186975989760 (by decide +kernel) (by norm_num)

/-- The value of a full turn. -/
theorem hasValue_turn : HasValue 360.0 360 :=
  hasValue_of_key (-44) 6333186975989760 (by decide +kernel) (by norm_num)

/-- Half of the distance between a full turn and the float before. -/
def lostAngle : Float := 2.842170943040401e-14

/-- The value of the lost angle. -/
theorem hasValue_lostAngle : HasValue lostAngle (2 ^ (-45 : ℤ)) :=
  hasValue_of_key (-97) (2 ^ 52) (by decide +kernel) (by norm_num)

/-- A full turn less an angle is rounded to the full turn if the angle is no more than the lost
one. -/
theorem roundsTo_turn {p : ℝ} (hlow : -2 ^ (-45 : ℤ) ≤ p) (hneg : p < 0) :
    RoundsTo (p + 360) 360 := by
  have hlost : (2 : ℝ) ^ (-45 : ℤ) < 1 := zpow_lt_one_of_neg₀ one_lt_two (by norm_num)
  have hpos : |p + 360| = p + 360 := abs_of_pos (by linarith)
  have hdistance : |p + 360 - (6333186975989760 : ℤ) * 2 ^ (-44 : ℤ)| = -p := by
    rw [← abs_of_neg hneg]
    congr 1
    norm_num
  refine ⟨-44, 6333186975989760, ⟨⟨by norm_num, ?_, Or.inr ?_⟩, ?_, fun _ => by decide⟩,
    by norm_num⟩
  · rw [hpos]
    norm_num
    linarith
  · rw [hpos]
    norm_num
    linarith
  · rw [hdistance]
    norm_num at hlow ⊢
    linarith

/-- A full turn less an angle is rounded to less than the full turn if the angle is more than the
lost one. -/
theorem RoundsTo.lt_turn {p r : ℝ} (h : RoundsTo (p + 360) r) (hp : p < -2 ^ (-45 : ℤ)) :
    r < 360 := by
  by_contra hge
  have hpos : (0 : ℝ) < 2 ^ (-45 : ℤ) := zpow_pos two_pos _
  have hbefore : IsRepresentable (360 - 2 * 2 ^ (-45 : ℤ)) :=
    ⟨6333186975989759, -44, by norm_num, by norm_num, by norm_num⟩
  have hnearer := h.nearest hbefore
  rw [abs_of_neg (by linarith)] at hnearer
  rcases le_abs'.mp hnearer with hbelow | habove <;> linarith

/-- A bearing is an angle in degrees between half turns. Its sign is that of the ordinate, also
where both are zeros. -/
structure IsBearing (ordinate bearing : Float) : Prop where
  within : Within (-180.0) 180.0 bearing
  isNegative_eq : isNegative bearing = isNegative ordinate

/-- A finite float without a minus sign does not stand for a negative number. -/
theorem HasValue.nonneg {x : Float} {p : ℝ} (h : HasValue x p) (hsign : isNegative x = false) :
    0 ≤ p := by
  have hpositive : signOf x = .positive := if_neg (by rw [hsign]; decide)
  rw [(hasValue_iff.mp h).2, hpositive]
  exact mul_nonneg (Nat.cast_nonneg _) (zpow_pos two_pos _).le

/-- All bearings lead to hues from zero to a full turn, and those that are not below zero to hues of
at most a half turn. The full turn itself is the hue of the bearings that are lost. -/
theorem hueOfBearing_bounds {x : Float} (hx : Within (-180.0) 180.0 x) :
    Within 0.0 360.0 (hueOfBearing x) ∧
      (hueOfBearing x < 360.0 ↔ x < -lostAngle ∨ 0.0 ≤ x) ∧
      (0.0 ≤ x → hueOfBearing x ≤ 180.0) := by
  obtain ⟨p, hp, hlow, hhigh⟩ :=
    exists_hasValue_of_within hasValue_half_turn.neg hasValue_half_turn hx
  rw [hp.lt_iff hasValue_lostAngle.neg, hasValue_zero.le_iff hp]
  unfold hueOfBearing
  split
  · next hneg =>
    rw [hp.lt_iff hasValue_zero] at hneg
    have hrange : |p + 360| ≤ 2 ^ (1023 : ℤ) := by
      calc |p + 360| = p + 360 := abs_of_pos (by linarith)
        _ ≤ 2 ^ (9 : ℤ) := by norm_num; linarith
        _ ≤ 2 ^ (1023 : ℤ) := zpow_le_zpow_right₀ one_le_two (by norm_num)
    obtain ⟨r, hr, hrounds⟩ := hp.add hasValue_turn hrange
    refine ⟨(hp.rounds_add hasValue_turn).within hasValue_zero hasValue_turn (by linarith)
      (by linarith), ?_, fun hpos => absurd hpos hneg.not_ge⟩
    rw [hr.lt_iff hasValue_turn, or_iff_left hneg.not_ge]
    refine ⟨fun hlt => ?_, fun hlost => hrounds.lt_turn hlost⟩
    by_contra hlost
    exact hlt.ne (hrounds.unique (roundsTo_turn (not_lt.mp hlost) hneg))
  · next hneg =>
    rw [hp.lt_iff hasValue_zero, not_lt] at hneg
    refine ⟨⟨(hasValue_zero.le_iff hp).mpr hneg, (hp.le_iff hasValue_turn).mpr (by linarith)⟩, ?_,
      fun _ => hx.2⟩
    rw [hp.lt_iff hasValue_turn]
    exact iff_of_true (by linarith) (Or.inr hneg)

end Binary64

namespace Color

/-- A color has no hue if both axes are powerless, and else the hue that its bearing leads to. -/
theorem hue_eq [Elementary Float] (c : Color Float) :
    c.hue = if magnitude c.lab.a < 0.0002 ∧ magnitude c.lab.b < 0.0002 then none
      else some (hueOfBearing (Elementary.bearing c.lab.b c.lab.a)) := by
  change c.lab.toPolar.hue = _
  unfold Lab.toPolar
  split
  · next h => exact (if_pos h).symm
  · next h => exact (if_neg h).symm

/-- A color has no hue exactly if both axes are powerless. All hues are numbers from 0 to 360, and
those of colors without a minus sign on the blue-yellow axis are at most 180. A hue is less than 360
unless the bearing is so little below zero that it is lost, and then the hue is 360. -/
theorem hue_range [Elementary Float] (c : Color Float)
    (h : IsBearing c.lab.b (Elementary.bearing c.lab.b c.lab.a)) :
    (c.hue = none ↔ magnitude c.lab.a < 0.0002 ∧ magnitude c.lab.b < 0.0002) ∧
    ∀ hue, c.hue = some hue →
      Within 0.0 360.0 hue ∧
      (hue < 360.0 ↔ Elementary.bearing c.lab.b c.lab.a < -lostAngle ∨
        0.0 ≤ Elementary.bearing c.lab.b c.lab.a) ∧
      (isNegative c.lab.b = false → hue ≤ 180.0) := by
  obtain ⟨hwithin, hless, hhalf⟩ := hueOfBearing_bounds h.within
  rw [hue_eq]
  split
  · next hpowerless => exact ⟨iff_of_true rfl hpowerless, nofun⟩
  · next hpowerless =>
    refine ⟨iff_of_false nofun hpowerless, fun hue hhue => ?_⟩
    obtain rfl := Option.some.inj hhue
    refine ⟨hwithin, hless, fun hsign => hhalf ?_⟩
    obtain ⟨p, hp, -⟩ :=
      exists_hasValue_of_within hasValue_half_turn.neg hasValue_half_turn h.within
    exact (hasValue_zero.le_iff hp).mpr (hp.nonneg (h.isNegative_eq.trans hsign))

/-- The functions of floats with a bearing that is right for colors near the positive part of the
green-red axis, where an angle is the same as its tangent. -/
@[reducible] def smallBearings : Elementary Float :=
  { (inferInstance : Elementary Float) with bearing b a := b / a * 57.29577951308232 }

/-- A color just below the positive part of the green-red axis has a hue just below 360. -/
theorem hue_range_small :
    let _ := smallBearings
    let c : Color Float := solid ⟨0.5, 0.1, -1e-10⟩
    c.IsNormal ∧ IsBearing c.lab.b (Elementary.bearing c.lab.b c.lab.a) ∧
      ∃ hue, c.hue = some hue ∧ Within 0.0 360.0 hue ∧ hue < 360.0 := by
  intro _ c
  have hbearing : IsBearing c.lab.b (Elementary.bearing c.lab.b c.lab.a) :=
    ⟨⟨by decide +kernel, by decide +kernel⟩, by decide +kernel⟩
  have hhue : c.hue = some (hueOfBearing (Elementary.bearing c.lab.b c.lab.a)) := by
    rw [hue_eq]
    exact if_neg (by decide +kernel)
  obtain ⟨hwithin, hless, -⟩ := (hue_range c hbearing).2 _ hhue
  exact ⟨isNormal_make _ _, hbearing, _, hhue, hwithin, hless.mpr (Or.inl (by decide +kernel))⟩

/-- A color that is closer still to the green-red axis has the hue 360, although it equals a color
with the hue zero. -/
theorem hue_of_lost_bearing :
    let _ := smallBearings
    let c : Color Float := solid ⟨0.5, 0.1, -1e-20⟩
    let d : Color Float := solid ⟨0.5, 0.1, 0.0⟩
    c.IsNormal ∧ IsBearing c.lab.b (Elementary.bearing c.lab.b c.lab.a) ∧
      c.hue = some 360.0 ∧ (c == d) = true ∧ d.hue = some 0.0 := by
  intro _ c d
  exact ⟨isNormal_make _ _, ⟨⟨by decide +kernel, by decide +kernel⟩, by decide +kernel⟩,
    by decide +kernel, by decide +kernel, by decide +kernel⟩

end Color

end ColorWords
