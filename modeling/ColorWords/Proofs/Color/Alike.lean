import ColorWords.Proofs.Color.Gamut
import ColorWords.Proofs.Scalar.Alike

/-!
# Colors up to the signs of zeros

Conversions keep colors alike, and so does each round of the search for a color in the gamut, since
it only compares what is alike. The one function that shows the sign of a zero is the bearing of a
color on the negative part of the green-red axis: it is half a turn in either direction, and both
directions are the same hue.
-/

namespace ColorWords

open Scalar SignedZeros

variable {α : Type} [Scalar α]

/-! ## Coordinates -/

/-- The coordinates are alike. -/
structure Triple.IsAlike (v w : Triple α) : Prop where
  x : Alike v.x w.x
  y : Alike v.y w.y
  z : Alike v.z w.z

/-- The coordinates are alike. -/
structure Lab.IsAlike (c d : Lab α) : Prop where
  lightness : Alike c.lightness d.lightness
  a : Alike c.a d.a
  b : Alike c.b d.b

/-- The coordinates are alike. -/
structure RGB.IsAlike (c d : RGB α) : Prop where
  red : Alike c.red d.red
  green : Alike c.green d.green
  blue : Alike c.blue d.blue

/-- The coordinates are alike, and either both have a hue or neither has. -/
structure Polar.IsAlike (c d : Polar α) : Prop where
  lightness : Alike c.lightness d.lightness
  chroma : Alike c.chroma d.chroma
  hue : Option.Rel Alike c.hue d.hue

section Arithmetic

namespace Triple

variable {v w : Triple α}

/-- A function that keeps scalars alike keeps coordinates alike. -/
theorem IsAlike.map {f : α → α} (hf : ∀ {x y : α}, Alike x y → Alike (f x) (f y))
    (h : IsAlike v w) : IsAlike (v.map f) (w.map f) :=
  ⟨hf h.x, hf h.y, hf h.z⟩

variable [SignedZeros α]

/-- Inner products with the same row are alike. -/
theorem IsAlike.dot (row : Triple α) (h : IsAlike v w) : Alike (row.dot v) (row.dot w) :=
  (Alike.refl _).multiplyAdd h.x ((Alike.refl _).multiplyAdd h.y ((Alike.refl _).mul h.z))

/-- A matrix keeps coordinates alike. -/
theorem IsAlike.transform (first second third : Triple α) (h : IsAlike v w) :
    IsAlike (v.transform first second third) (w.transform first second third) :=
  ⟨h.dot first, h.dot second, h.dot third⟩

end Triple

variable [SignedZeros α]

/-- The magnitude of a zero is a zero. -/
theorem isZero_magnitude {x : α} (hx : IsZero x) : IsZero (magnitude x) := by
  unfold magnitude
  split
  · exact isZero_neg hx
  · exact hx

namespace Conversion

variable {x y : α}

/-- Third powers of scalars that are alike are alike. -/
theorem alike_cube (h : Alike x y) : Alike (cube x) (cube y) := h.mul (h.mul h)

variable [Elementary α]

/-- Applying the gamma keeps scalars alike, since it is linear near zero. -/
theorem alike_gammaEncode (h : Alike x y) : Alike (gammaEncode x) (gammaEncode y) := by
  rcases h with rfl | ⟨hx, hy⟩
  · exact Alike.refl _
  · have hlinear {z : α} (hz : IsZero z) : gammaEncode z = z * 12.92 :=
      if_pos (OrderedScalar.le_trans (isZero_magnitude hz).1 zero_le_encodeLimit)
    rw [hlinear hx, hlinear hy]
    exact alike_zero_mul hx hy _

/-- Removing the gamma keeps scalars alike, since it is linear near zero. -/
theorem alike_linearize (h : Alike x y) : Alike (linearize x) (linearize y) := by
  rcases h with rfl | ⟨hx, hy⟩
  · exact Alike.refl _
  · have hlinear {z : α} (hz : IsZero z) : linearize z = z / 12.92 :=
      if_pos (OrderedScalar.le_trans (isZero_magnitude hz).1 zero_le_linearLimit)
    rw [hlinear hx, hlinear hy]
    exact alike_zero_div hx hy _

end Conversion

namespace Lab

variable {c d : Lab α}

/-- Limiting keeps coordinates alike. -/
theorem IsAlike.normalized (h : IsAlike c d) : IsAlike c.normalized d.normalized :=
  ⟨h.lightness.numberOrZero.clamp _ _, h.a.numberOrZero.clamp _ _, h.b.numberOrZero.clamp _ _⟩

/-- Distances from colors that are alike are alike. -/
theorem IsAlike.distanceSquared {c' d' : Lab α} (h : IsAlike c d) (h' : IsAlike c' d') :
    Alike (c.distanceSquared c') (d.distanceSquared d') := by
  have hlightness := h.lightness.sub h'.lightness
  have ha := h.a.sub h'.a
  have hb := h.b.sub h'.b
  exact hlightness.multiplyAdd hlightness (ha.multiplyAdd ha (hb.mul hb))

variable [Elementary α]

/-- The conversion to sRGB keeps coordinates alike. -/
theorem IsAlike.toRGB (h : IsAlike c d) : RGB.IsAlike c.toRGB d.toRGB := by
  have hcoordinates : Triple.IsAlike ⟨c.lightness, c.a, c.b⟩ ⟨d.lightness, d.a, d.b⟩ :=
    ⟨h.lightness, h.a, h.b⟩
  have hroots : Triple.IsAlike (Conversion.rootsOfLab ⟨c.lightness, c.a, c.b⟩)
      (Conversion.rootsOfLab ⟨d.lightness, d.a, d.b⟩) := hcoordinates.transform _ _ _
  have hxyz : Triple.IsAlike (Conversion.xyzOfCones _) (Conversion.xyzOfCones _) :=
    (hroots.map Conversion.alike_cube).transform _ _ _
  have hlinear : Triple.IsAlike (Conversion.linearOfXyz _) (Conversion.linearOfXyz _) :=
    hxyz.transform _ _ _
  exact ⟨Conversion.alike_gammaEncode hlinear.x, Conversion.alike_gammaEncode hlinear.y,
    Conversion.alike_gammaEncode hlinear.z⟩

end Lab

namespace RGB

variable {c d : RGB α}

/-- Clipping keeps coordinates alike. -/
theorem IsAlike.clip (h : IsAlike c d) : IsAlike c.clip d.clip :=
  ⟨h.red.clamp _ _, h.green.clamp _ _, h.blue.clamp _ _⟩

/-- Coordinates that are alike are in gamut together. -/
theorem IsAlike.inGamut_eq (h : IsAlike c d) : c.inGamut = d.inGamut := by
  have hrange {x y : α} (hxy : Alike x y) : inRange x = inRange y := by
    simp only [inRange, (Alike.refl (-slack)).le_iff hxy, hxy.le_iff (Alike.refl (1.0 + slack))]
  simp only [inGamut, hrange h.red, hrange h.green, hrange h.blue]

end RGB

end Arithmetic

/-! ## Conversions -/

section Conversions

variable [SignedZeros α] [Elementary α]

/-- The conversion from sRGB keeps coordinates alike. -/
theorem RGB.IsAlike.toLab (hfunctions : Elementary.IgnoresZeroSigns α) {c d : RGB α}
    (h : IsAlike c d) : Lab.IsAlike c.toLab d.toLab := by
  have hlinear : Triple.IsAlike
      ⟨Conversion.linearize c.red, Conversion.linearize c.green, Conversion.linearize c.blue⟩
      ⟨Conversion.linearize d.red, Conversion.linearize d.green, Conversion.linearize d.blue⟩ :=
    ⟨Conversion.alike_linearize h.red, Conversion.alike_linearize h.green,
      Conversion.alike_linearize h.blue⟩
  have hxyz : Triple.IsAlike (Conversion.xyzOfLinear _) (Conversion.xyzOfLinear _) :=
    hlinear.transform _ _ _
  have hcones : Triple.IsAlike (Conversion.conesOfXyz _) (Conversion.conesOfXyz _) :=
    hxyz.transform _ _ _
  have hlab : Triple.IsAlike (Conversion.labOfRoots _) (Conversion.labOfRoots _) :=
    (hcones.map hfunctions.cubeRoot).transform _ _ _
  exact ⟨hlab.x, hlab.y, hlab.z⟩

/-- The hue of a color with a bearing, which counts from 0. -/
def hueOfBearing (bearing : α) : α := if bearing < 0.0 then bearing + 360.0 else bearing

omit [Elementary α] in
/-- Bearings that are alike lead to hues that are alike. -/
theorem alike_hueOfBearing {x y : α} (h : Alike x y) :
    Alike (hueOfBearing x) (hueOfBearing y) :=
  rel_ite (h.lt_iff (Alike.refl _)) (h.add (Alike.refl _)) h

/-- On the horizontal axis the sign of the ordinate changes the direction of half a turn at most. -/
theorem alike_hueOfBearing_of_isZero (hfunctions : Elementary.IgnoresZeroSigns α) {a b b' : α}
    (hb : IsZero b) (hb' : IsZero b') (ha : a < 0.0 ∨ 0.0 < a) :
    Alike (hueOfBearing (Elementary.bearing b a)) (hueOfBearing (Elementary.bearing b' a)) := by
  rcases ha with hneg | hpos
  · have hhalf {b : α} (hb : IsZero b) : hueOfBearing (Elementary.bearing b a) = 180.0 := by
      rcases hfunctions.bearing_left hb hneg with hbearing | hbearing
      · rw [hbearing]
        exact if_neg fun hlt => OrderedScalar.not_le_of_lt hlt zero_le_half_turn
      · rw [hbearing]
        exact (if_pos neg_half_turn_lt_zero).trans half_turn
    rw [hhalf hb, hhalf hb']
    exact Alike.refl _
  · exact alike_hueOfBearing
      (Or.inr ⟨hfunctions.bearing_right hb hpos, hfunctions.bearing_right hb' hpos⟩)

/-- The conversion to polar form keeps coordinates alike. -/
theorem Lab.IsAlike.toPolar (hfunctions : Elementary.IgnoresZeroSigns α) {c d : Lab α}
    (h : IsAlike c d) (hnumber : c.a ≤ c.a) : Polar.IsAlike c.toPolar d.toPolar := by
  have hsmall {x : α} (hx : IsZero x) : magnitude x < powerless := by
    have hzero := isZero_magnitude hx
    exact OrderedScalar.lt_iff.mpr ⟨OrderedScalar.le_trans hzero.1
      (OrderedScalar.le_of_lt zero_lt_powerless), fun hle =>
        OrderedScalar.not_le_of_lt zero_lt_powerless (OrderedScalar.le_trans hle hzero.1)⟩
  have hgray : magnitude c.a < powerless ∧ magnitude c.b < powerless ↔
      magnitude d.a < powerless ∧ magnitude d.b < powerless := by
    rw [h.a.magnitude.lt_iff (Alike.refl _), h.b.magnitude.lt_iff (Alike.refl _)]
  unfold Lab.toPolar
  by_cases hpowerless : magnitude c.a < powerless ∧ magnitude c.b < powerless
  · rw [if_pos hpowerless, if_pos (hgray.mp hpowerless)]
    exact ⟨h.lightness, Alike.refl _, .none⟩
  · rw [if_neg hpowerless, if_neg (mt hgray.mpr hpowerless)]
    refine ⟨h.lightness, hfunctions.euclidean h.a h.b, .some ?_⟩
    by_cases hb : IsZero c.b
    · -- The color is not gray, so it is on one side of the origin.
      have ha : ¬ IsZero c.a := fun ha => hpowerless ⟨hsmall ha, hsmall hb⟩
      have hzero := (isZero_zero (α := α)).1
      have hsides : c.a < 0.0 ∨ 0.0 < c.a := by
        by_contra hneither
        rw [not_or] at hneither
        exact ha ⟨OrderedScalar.le_of_not_lt hzero hnumber hneither.2,
          OrderedScalar.le_of_not_lt hnumber hzero hneither.1⟩
      rw [← h.a.resolve_right fun hzeros => ha hzeros.1]
      exact alike_hueOfBearing_of_isZero hfunctions hb (h.b.isZero hb) hsides
    · rw [← h.b.resolve_right fun hzeros => hb hzeros.1]
      exact alike_hueOfBearing (hfunctions.bearing_off_axis hb h.a)

/-- The conversion from polar form keeps coordinates alike. -/
theorem Polar.IsAlike.toLab (hfunctions : Elementary.IgnoresZeroSigns α) {c d : Polar α}
    (h : IsAlike c d) : Lab.IsAlike c.toLab d.toLab := by
  obtain ⟨lightness, chroma, hue⟩ := c
  obtain ⟨lightness', chroma', hue'⟩ := d
  obtain ⟨hlightness, hchroma, hhue⟩ := h
  cases hhue with
  | none => exact ⟨hlightness, Alike.refl _, Alike.refl _⟩
  | some hhue =>
    exact ⟨hlightness, hchroma.mul (hfunctions.cosine hhue), hchroma.mul (hfunctions.sine hhue)⟩

/-- Differences of colors that are alike are alike. -/
theorem Lab.IsAlike.difference (hfunctions : Elementary.IgnoresZeroSigns α) {c c' d d' : Lab α}
    (h : IsAlike c d) (h' : IsAlike c' d') :
    Alike (ColorModel.difference c c') (ColorModel.difference d d') :=
  hfunctions.squareRoot (h.distanceSquared h')

/-! ## Mapping into the gamut -/

namespace Gamut

/-- The ends of the brackets are alike, and so are the clipped colors. -/
structure Bracket.IsAlike (x y : Bracket α) : Prop where
  low : Alike x.low y.low
  high : Alike x.high y.high
  lowInGamut : x.lowInGamut = y.lowInGamut
  clipped : RGB.IsAlike x.clipped y.clipped

/-- Both rounds settle for colors that are alike, or both narrow to brackets that are alike. -/
inductive Outcome.IsAlike : Outcome α → Outcome α → Prop where
  | settled {c d : RGB α} (h : RGB.IsAlike c d) : IsAlike (.settled c) (.settled d)
  | narrowed {x y : Bracket α} (h : Bracket.IsAlike x y) : IsAlike (.narrowed x) (.narrowed y)

variable (hfunctions : Elementary.IgnoresZeroSigns α) {origin origin' : Polar α}
  (horigin : Polar.IsAlike origin origin')

include hfunctions horigin

/-- A round of the search leads from brackets that are alike to outcomes that are alike. -/
theorem Bracket.IsAlike.narrow {x y : Bracket α} (h : IsAlike x y) :
    Outcome.IsAlike (x.narrow origin) (y.narrow origin') := by
  have hchroma : Alike x.middle y.middle := (h.low.add h.high).div _
  have hcurrent : Lab.IsAlike (ColorModel.ofPolar { origin with chroma := x.middle })
      (ColorModel.ofPolar { origin' with chroma := y.middle }) :=
    Polar.IsAlike.toLab hfunctions ⟨horigin.lightness, hchroma, horigin.hue⟩
  have hrgb : RGB.IsAlike (ColorModel.toRGB (ColorModel.ofPolar { origin with chroma := x.middle }))
      (ColorModel.toRGB (ColorModel.ofPolar { origin' with chroma := y.middle })) := hcurrent.toRGB
  have hclipped := hrgb.clip
  have hdifference := Lab.IsAlike.difference hfunctions (hclipped.toLab hfunctions) hcurrent
  refine rel_ite ?_ (.narrowed ⟨hchroma, h.high, h.lowInGamut, h.clipped⟩) ?_
  · rw [h.lowInGamut, hrgb.inGamut_eq]
  · refine rel_ite (hdifference.lt_iff (Alike.refl noticeable)) ?_
      (.narrowed ⟨h.low, hchroma, h.lowInGamut, hclipped⟩)
    exact rel_ite (((Alike.refl noticeable).sub hdifference).lt_iff (Alike.refl tolerance))
      (.settled hclipped) (.narrowed ⟨hchroma, h.high, rfl, hclipped⟩)

/-- The search leads from brackets that are alike to clipped colors that are alike. -/
theorem Bracket.IsAlike.search (rounds : ℕ) {x y : Bracket α} (h : IsAlike x y) :
    RGB.IsAlike (x.search origin rounds) (y.search origin' rounds) := by
  induction rounds generalizing x y with
  | zero => exact h.clipped
  | succ rounds ih =>
    have hwide : x.isWide = true ↔ y.isWide = true := by
      simp only [Bracket.isWide, decide_eq_true_eq,
        (Alike.refl tolerance).lt_iff (h.high.sub h.low)]
    refine rel_ite hwide ?_ h.clipped
    have hround := Bracket.IsAlike.narrow hfunctions horigin h
    generalize x.narrow origin = outcome at hround ⊢
    generalize y.narrow origin' = outcome' at hround ⊢
    cases hround with
    | settled hclipped => exact hclipped
    | narrowed hbracket => exact ih hbracket

omit horigin in
/-- Mapping into the gamut keeps colors alike. -/
theorem map_isAlike {c d : Lab α} (h : Lab.IsAlike c d) : Lab.IsAlike (map c) (map d) := by
  have hlab := h.normalized
  have hnumber := OrderedScalar.number_left (Color.axis_within c.a).2
  have horigin := Lab.IsAlike.toPolar hfunctions hlab hnumber
  have hrgb : RGB.IsAlike (ColorModel.toRGB c.normalized) (ColorModel.toRGB d.normalized) :=
    hlab.toRGB
  have hclipped := hrgb.clip
  have hsettled := hclipped.toLab hfunctions
  have hdifference := Lab.IsAlike.difference hfunctions hsettled
    (Polar.IsAlike.toLab hfunctions horigin)
  have hbracket : Bracket.IsAlike
      ⟨0.0, (ColorModel.toPolar c.normalized).chroma, true, (ColorModel.toRGB c.normalized).clip⟩
      ⟨0.0, (ColorModel.toPolar d.normalized).chroma, true, (ColorModel.toRGB d.normalized).clip⟩ :=
    ⟨Alike.refl _, horigin.chroma, rfl, hclipped⟩
  refine rel_ite ((Alike.refl 1.0).le_iff horigin.lightness)
    ⟨Alike.refl _, Alike.refl _, Alike.refl _⟩ ?_
  refine rel_ite (horigin.lightness.le_iff (Alike.refl 0.0))
    ⟨Alike.refl _, Alike.refl _, Alike.refl _⟩ ?_
  refine rel_ite (by rw [hrgb.inGamut_eq]) hlab ?_
  refine rel_ite (hdifference.lt_iff (Alike.refl noticeable)) hsettled ?_
  exact (Bracket.IsAlike.search hfunctions horigin maxRounds hbracket).toLab hfunctions

end Gamut

end Conversions

/-! ## Colors -/

namespace Color

variable [SignedZeros α] {c d : Color α}

/-- Colors made from channels that are alike are alike. -/
theorem channelwise_make {lab lab' : Lab α} {alpha alpha' : α} (hlab : Lab.IsAlike lab lab')
    (halpha : Alike alpha alpha') : Channelwise Alike (make lab alpha) (make lab' alpha') :=
  have hnormalized := hlab.normalized
  ⟨hnormalized.lightness, hnormalized.a, hnormalized.b, halpha.numberOrZero.clamp _ _⟩

/-- Mapping into the gamut keeps colors alike. -/
theorem Channelwise.toGamut [Elementary α] (hfunctions : Elementary.IgnoresZeroSigns α)
    (h : Channelwise Alike c d) : Channelwise Alike c.toGamut d.toGamut :=
  channelwise_make (Gamut.map_isAlike hfunctions ⟨h.lightness, h.a, h.b⟩) h.alpha

/-- Normal colors that are alike are equal. -/
theorem Channelwise.beq_eq_true [Numeral α] (h : Channelwise Alike c d) (hc : c.IsNormal) :
    (c == d) = true := by
  have hsame : sameChannels c d = true := by
    unfold sameChannels
    rw [h.lightness.same_eq_true (OrderedScalar.number_left hc.lightness.2),
      h.a.same_eq_true (OrderedScalar.number_left hc.a.2),
      h.b.same_eq_true (OrderedScalar.number_left hc.b.2),
      h.alpha.same_eq_true (OrderedScalar.number_left hc.alpha.2)]
    rfl
  change (sameChannels c d || _) = true
  rw [hsame, Bool.true_or]

/-- The mix of one normal color is alike this color. -/
theorem channelwise_mix_singleton (hc : c.IsNormal) : Channelwise Alike (mix [c]) c := by
  have hmean {x : α} (h : Within (-1.0) 1.0 x) :
      Alike ((Accumulator.zero.add x).total / ofNat 1) x :=
    ((Accumulator.alike_total_add h).div _).trans (alike_div_one h)
  have hlow : (-1.0 : α) ≤ 0.0 :=
    OrderedScalar.le_trans neg_one_le_neg_half OrderedScalar.neg_half_le_zero
  have hunit {x : α} (h : Within 0.0 1.0 x) : Within (-1.0) 1.0 x :=
    ⟨OrderedScalar.le_trans hlow h.1, h.2⟩
  have haxis {x : α} (h : Within (-Lab.axisLimit) Lab.axisLimit x) : Within (-1.0) 1.0 x :=
    ⟨OrderedScalar.le_trans neg_one_le_neg_half h.1, OrderedScalar.le_trans h.2 half_le_one⟩
  have hmeans : Lab.IsAlike ⟨(Accumulator.zero.add c.lab.lightness).total / ofNat 1,
      (Accumulator.zero.add c.lab.a).total / ofNat 1,
      (Accumulator.zero.add c.lab.b).total / ofNat 1⟩ c.lab :=
    ⟨hmean (hunit hc.lightness), hmean (haxis hc.a), hmean (haxis hc.b)⟩
  have hmade := channelwise_make hmeans (hmean (hunit hc.alpha))
  have hself : make c.lab c.alpha = c := by
    rw [make, hc.normalized_eq, unit_eq_self hc.alpha]
  rwa [hself] at hmade

end Color

end ColorWords
