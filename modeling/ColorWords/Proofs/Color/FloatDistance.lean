import ColorWords.Proofs.Color.Normal
import ColorWords.Proofs.Scalar.Binary64MultiplyAdd

/-!
# Distances between float colors

No difference between channels of normal colors exceeds one in magnitude, and rounding does not
carry a number past a float. So the squares are at most 1, their sum at most 3, and the distance
itself at most 2, in float arithmetic as it is. No square is the negative zero, so a squared
distance that is not above zero is the zero without a sign.
-/

namespace ColorWords

open Scalar Binary64

namespace Binary64

/-! ## Bounds of results -/

/-- The value of one half. -/
theorem hasValue_half : HasValue 0.5 (1 / 2) :=
  hasValue_of_key (-53) (2 ^ 52) (by decide +kernel) (by norm_num)

/-- The value of two. -/
theorem hasValue_two : HasValue 2.0 2 :=
  hasValue_of_key (-51) (2 ^ 52) (by decide +kernel) (by norm_num)

/-- The value of three. -/
theorem hasValue_three : HasValue 3.0 3 :=
  hasValue_of_key (-51) 6755399441055744 (by decide +kernel) (by norm_num)

/-- A result whose exact value lies between those of two floats lies between these floats. -/
theorem Rounds.within {v p q : ℝ} {low high z : Float} (h : Rounds v z) (hlow : HasValue low p)
    (hhigh : HasValue high q) (hpv : p ≤ v) (hvq : v ≤ q) : Within low high z :=
  ⟨(h low p hlow).2 hpv, (h high q hhigh).1 hvq⟩

/-- The difference of two floats in a range of width at most 1 is finite, with a square of at most
1. -/
theorem exists_hasValue_sub {low high x y : Float} {l h : ℝ} (hlow : HasValue low l)
    (hhigh : HasValue high h) (hwidth : h - l ≤ 1) (hx : Within low high x)
    (hy : Within low high y) : ∃ d, HasValue (x - y) d ∧ d * d ≤ 1 := by
  obtain ⟨p, hp, hlp, hph⟩ := exists_hasValue_of_within hlow hhigh hx
  obtain ⟨q, hq, hlq, hqh⟩ := exists_hasValue_of_within hlow hhigh hy
  have hsub : Within (-1.0) 1.0 (x - y) :=
    (hp.rounds_sub hq).within hasValue_one.neg hasValue_one (by linarith) (by linarith)
  obtain ⟨d, hd, hneg, hpos⟩ := exists_hasValue_of_within hasValue_one.neg hasValue_one hsub
  exact ⟨d, hd, by nlinarith⟩

/-- The square of a float is at most a float that bounds the exact square. -/
theorem HasValue.within_square {high x : Float} {p h : ℝ} (hx : HasValue x p)
    (hhigh : HasValue high h) (hsquare : p * p ≤ h) : Within 0.0 high (x * x) :=
  (hx.rounds_mul hx).within hasValue_zero hhigh (mul_self_nonneg p) hsquare

/-- The square of a float, added to one that is not negative, is at most a float that bounds the
exact sum. -/
theorem HasValue.within_multiplyAdd {high highest x z : Float} {p s h t : ℝ} (hx : HasValue x p)
    (hhigh : HasValue high h) (hhighest : HasValue highest t) (hsquare : p * p ≤ s)
    (hsum : s + h ≤ t) (hz : Within 0.0 high z) :
    Within 0.0 highest (Scalar.multiplyAdd x x z) := by
  obtain ⟨r, hr, hr0, hrh⟩ := exists_hasValue_of_within hasValue_zero hhigh hz
  have hnonneg := mul_self_nonneg p
  exact (hx.rounds_multiplyAdd hx hr).within hasValue_zero hhighest (by linarith) (by linarith)

/-- The sum of two floats that are not negative is at most a float that bounds the exact sum. -/
theorem within_add {high highest other x y : Float} {h k t : ℝ} (hhigh : HasValue high h)
    (hother : HasValue other k) (hhighest : HasValue highest t) (hsum : h + k ≤ t)
    (hx : Within 0.0 high x) (hy : Within 0.0 other y) : Within 0.0 highest (x + y) := by
  obtain ⟨p, hp, hp0, hph⟩ := exists_hasValue_of_within hasValue_zero hhigh hx
  obtain ⟨q, hq, hq0, hqk⟩ := exists_hasValue_of_within hasValue_zero hother hy
  exact (hp.rounds_add hq).within hasValue_zero hhighest (by linarith) (by linarith)

/-- A float up to 3 is below infinity. -/
theorem belowInfinity_of_within {x : Float} (h : Within 0.0 3.0 x) : belowInfinity x = true := by
  have hlt : (3.0 : Float) < 4.0 := by decide
  refine OrderedScalar.belowInfinity_of_lt (y := 4.0) (OrderedScalar.lt_iff.mpr ⟨?_, fun hge => ?_⟩)
  · exact OrderedScalar.le_trans h.2 (OrderedScalar.le_of_lt hlt)
  · exact OrderedScalar.not_le_of_lt hlt (OrderedScalar.le_trans hge h.2)

end Binary64

/-! ## Distances -/

namespace Color

variable {c d : Color Float}

/-- The differences between channels of normal colors are finite, with squares of at most 1. -/
theorem IsNormal.exists_differences (hc : c.IsNormal) (hd : d.IsNormal) :
    ∃ l a b, (HasValue (c.lab.lightness - d.lab.lightness) l ∧ l * l ≤ 1) ∧
      (HasValue (c.lab.a - d.lab.a) a ∧ a * a ≤ 1) ∧
      HasValue (c.lab.b - d.lab.b) b ∧ b * b ≤ 1 := by
  have hlimit : HasValue Lab.axisLimit (1 / 2) := hasValue_half
  obtain ⟨l, hl⟩ := exists_hasValue_sub hasValue_zero hasValue_one (by norm_num) hc.lightness
    hd.lightness
  obtain ⟨a, ha⟩ := exists_hasValue_sub hlimit.neg hlimit (by norm_num) hc.a hd.a
  obtain ⟨b, hb⟩ := exists_hasValue_sub hlimit.neg hlimit (by norm_num) hc.b hd.b
  exact ⟨l, a, b, hl, ha, hb⟩

/-- The squared distance in the axes is at most 2. -/
theorem IsNormal.within_axes (hc : c.IsNormal) (hd : d.IsNormal) :
    Within 0.0 2.0 (Scalar.multiplyAdd (c.lab.a - d.lab.a) (c.lab.a - d.lab.a)
      ((c.lab.b - d.lab.b) * (c.lab.b - d.lab.b))) := by
  obtain ⟨-, a, b, -, ⟨ha, haa⟩, hb, hbb⟩ := hc.exists_differences hd
  exact ha.within_multiplyAdd hasValue_one hasValue_two haa (by norm_num)
    (hb.within_square hasValue_one hbb)

/-- The squared distance between normal colors is a number from 0 to 3. -/
theorem IsNormal.within_distanceSquared (hc : c.IsNormal) (hd : d.IsNormal) :
    Within 0.0 3.0 (c.distanceSquared d) := by
  obtain ⟨l, -, -, ⟨hl, hll⟩, -⟩ := hc.exists_differences hd
  exact hl.within_multiplyAdd hasValue_two hasValue_three hll (by norm_num) (hc.within_axes hd)

/-- A normal color has no distance from itself. -/
theorem IsNormal.distanceSquared_self_le (hc : c.IsNormal) : c.distanceSquared c ≤ 0.0 := by
  have hlimit : HasValue Lab.axisLimit (1 / 2) := hasValue_half
  obtain ⟨lightness, hlightness, -⟩ :=
    exists_hasValue_of_within hasValue_zero hasValue_one hc.lightness
  obtain ⟨a, ha, -⟩ := exists_hasValue_of_within hlimit.neg hlimit hc.a
  obtain ⟨b, hb, -⟩ := exists_hasValue_of_within hlimit.neg hlimit hc.b
  have hsquare := hb.sub_itself.within_square hasValue_zero (mul_zero 0).le
  have haxes := ha.sub_itself.within_multiplyAdd hasValue_zero hasValue_zero (mul_zero 0).le
    (add_zero 0).le hsquare
  exact (hlightness.sub_itself.within_multiplyAdd hasValue_zero hasValue_zero (mul_zero 0).le
    (add_zero 0).le haxes).2

/-- The squared distance between normal colors is not the negative zero. -/
theorem IsNormal.isPlain_distanceSquared (hc : c.IsNormal) (hd : d.IsNormal) :
    IsPlain (c.distanceSquared d) := by
  obtain ⟨l, -, -, ⟨hl, hll⟩, -⟩ := hc.exists_differences hd
  obtain ⟨q, hq, hq0, hq2⟩ :=
    exists_hasValue_of_within hasValue_zero hasValue_two (hc.within_axes hd)
  refine isPlain_multiplyAdd_self hl hq hq0 ?_
  calc l * l + q ≤ 2 ^ (2 : ℤ) := by norm_num; linarith
    _ ≤ 2 ^ (1023 : ℤ) := zpow_le_zpow_right₀ one_le_two (by norm_num)

/-- A squared distance between normal colors that is not above zero is exactly zero. -/
theorem IsNormal.distanceSquared_eq_zero (hc : c.IsNormal) (hd : d.IsNormal)
    (hle : c.distanceSquared d ≤ 0.0) : c.distanceSquared d = 0.0 := by
  obtain ⟨s, hs, hs0, hs0'⟩ := exists_hasValue_of_within hasValue_zero hasValue_zero
    ⟨(hc.within_distanceSquared hd).1, hle⟩
  obtain rfl := le_antisymm hs0' hs0
  exact hs.eq_of_isPlain hasValue_zero (hc.isPlain_distanceSquared hd) isPlain_zero

/-- The distance between normal colors is a number from 0 to 2. -/
theorem IsNormal.within_distance (hc : c.IsNormal) (hd : d.IsNormal) :
    Within 0.0 2.0 (Elementary.squareRoot (c.distanceSquared d)) := by
  obtain ⟨s, hs, hs0, hs3⟩ :=
    exists_hasValue_of_within hasValue_zero hasValue_three (hc.within_distanceSquared hd)
  have hroot : √s ≤ 2 := by
    rw [Real.sqrt_le_left two_pos.le]
    linarith
  exact (hs.rounds_sqrt hs0).within hasValue_zero hasValue_two (Real.sqrt_nonneg s) hroot

end Color

/-- Squared distances between normal colors are finite. -/
instance BoundedScores.instFloat : BoundedScores Float where
  belowInfinity_distanceSquared hc hd := belowInfinity_of_within (hc.within_distanceSquared hd)

end ColorWords
