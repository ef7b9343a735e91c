import ColorWords.Proofs.Scalar.Real
import ColorWords.Space

/-!
# The transfer functions of sRGB

Over the real numbers both transfer functions are odd and made of a line near zero and of a curve
beyond, and line and curve of one function are the inverses of those of the other. The end of the
line that removes gamma is mapped to a value below the end of the line that applies it. A value
between the two is encoded along the line and decoded along the curve, which is above the line
there. So the functions undo each other for all values but those between the two ends, and some of
these are encoded above greater values beyond both ends.
-/

namespace ColorWords.Conversion

open Scalar

/-- The values beyond the line that removes gamma, but still on the line that applies it. -/
def gap : Set ℝ := Set.Ioc (0.04045 / 12.92) 0.00313098

/-- The curve that removes gamma. -/
noncomputable def decodingCurve (c : ℝ) : ℝ := ((c + 0.055) / 1.055) ^ (2.4 : ℝ)

/-- The curve that applies gamma. -/
noncomputable def encodingCurve (c : ℝ) : ℝ := c ^ (1.0 / 2.4 : ℝ) * 1.055 - 0.055

/-! ## The curves -/

/-- The exponents of the curves are inverse. -/
theorem inverse_exponent : (1.0 / 2.4 : ℝ) = 2.4⁻¹ := by norm_num

/-- The curve that removes gamma undoes the one that applies it. -/
theorem decodingCurve_encodingCurve {c : ℝ} (hc : 0 ≤ c) :
    decodingCurve (encodingCurve c) = c := by
  rw [decodingCurve, encodingCurve, inverse_exponent, sub_add_cancel,
    mul_div_cancel_right₀ _ (by norm_num), Real.rpow_inv_rpow hc (by norm_num)]

/-- The curve that applies gamma undoes the one that removes it. -/
theorem encodingCurve_decodingCurve {c : ℝ} (hc : 0 ≤ c) :
    encodingCurve (decodingCurve c) = c := by
  rw [decodingCurve, encodingCurve, inverse_exponent,
    Real.rpow_rpow_inv (by positivity) (by norm_num), div_mul_cancel₀ _ (by norm_num),
    add_sub_cancel_right]

/-- The curve that removes gamma ascends. -/
theorem strictMonoOn_decodingCurve : StrictMonoOn decodingCurve (Set.Ici 0) := by
  intro c hc d hd hcd
  rw [Set.mem_Ici] at hc hd
  refine Real.rpow_lt_rpow (by positivity) ?_ (by norm_num)
  exact div_lt_div_of_pos_right (add_lt_add_left hcd _) (by norm_num)

/-- The fifth power of what the curve leads to is a 12th power, since 2.4 is 12 fifths. -/
theorem decodingCurve_pow_five {c : ℝ} (hc : 0 ≤ c) :
    decodingCurve c ^ 5 = ((c + 0.055) / 1.055) ^ 12 := by
  have hbase : 0 ≤ (c + 0.055) / 1.055 := by positivity
  rw [decodingCurve, ← Real.rpow_natCast, ← Real.rpow_mul hbase, ← Real.rpow_natCast]
  norm_num

/-- The curve leads to values that are not negative. -/
theorem decodingCurve_nonneg {c : ℝ} (hc : 0 ≤ c) : 0 ≤ decodingCurve c :=
  Real.rpow_nonneg (by positivity) _

/-- A bound below the curve is one below its fifth power. -/
theorem lt_decodingCurve_iff {q c : ℝ} (hq : 0 ≤ q) (hc : 0 ≤ c) :
    q < decodingCurve c ↔ q ^ 5 < ((c + 0.055) / 1.055) ^ 12 := by
  rw [← decodingCurve_pow_five hc,
    pow_lt_pow_iff_left₀ hq (decodingCurve_nonneg hc) (Nat.succ_ne_zero 4)]

/-- A bound above the curve is one above its fifth power. -/
theorem decodingCurve_lt_iff {q c : ℝ} (hq : 0 ≤ q) (hc : 0 ≤ c) :
    decodingCurve c < q ↔ ((c + 0.055) / 1.055) ^ 12 < q ^ 5 := by
  rw [← decodingCurve_pow_five hc,
    pow_lt_pow_iff_left₀ (decodingCurve_nonneg hc) hq (Nat.succ_ne_zero 4)]

/-- At the end of the line that removes gamma the curve is above it, but not beyond the end of the
line that applies gamma. -/
theorem decodingCurve_bounds :
    0.04045 / 12.92 < decodingCurve 0.04045 ∧ decodingCurve 0.04045 < 0.00313098 := by
  rw [lt_decodingCurve_iff (by norm_num) (by norm_num),
    decodingCurve_lt_iff (by norm_num) (by norm_num)]
  norm_num

/-- From the end of the line that removes gamma on, the curve is above it. -/
theorem lt_decodingCurve_line {c : ℝ} (hc : 0.04045 / 12.92 ≤ c) :
    c < decodingCurve (c * 12.92) := by
  -- The base of the power grows by this part of what it is at the end of the line.
  let growth := (c * 12.92 - 0.04045) / (0.04045 + 0.055)
  have hline : 0 ≤ c * 12.92 - 0.04045 := by
    rw [div_le_iff₀ (by norm_num)] at hc
    linarith
  have hgrowth : 0 ≤ growth := div_nonneg hline (by norm_num)
  have hbase : (c * 12.92 + 0.055) / 1.055 = (0.04045 + 0.055) / 1.055 * (1 + growth) := by
    simp only [growth]
    field_simp
    ring
  calc c ≤ 0.04045 / 12.92 * (1 + 2.4 * growth) := by
        simp only [growth]
        norm_num
        linarith
    _ < decodingCurve 0.04045 * (1 + 2.4 * growth) :=
        mul_lt_mul_of_pos_right decodingCurve_bounds.1 (by positivity)
    _ ≤ decodingCurve 0.04045 * (1 + growth) ^ (2.4 : ℝ) :=
        mul_le_mul_of_nonneg_left (one_add_mul_self_le_rpow_one_add (by linarith) (by norm_num))
          (decodingCurve_nonneg (by norm_num))
    _ = decodingCurve (c * 12.92) := by
        rw [decodingCurve, decodingCurve, hbase, Real.mul_rpow (by norm_num) (by positivity)]

/-! ## The functions -/

/-- A line up to a limit on both sides of zero, and beyond it a curve with the sign of the
argument. -/
noncomputable def lineAndCurve (limit : ℝ) (line curve : ℝ → ℝ) (c : ℝ) : ℝ :=
  if magnitude c ≤ limit then line c else withSignOf c (curve (magnitude c))

/-- On the side of positive arguments there is the line and then the curve. -/
theorem lineAndCurve_of_nonneg (limit : ℝ) (line curve : ℝ → ℝ) {c : ℝ} (hc : 0 ≤ c) :
    lineAndCurve limit line curve c = if c ≤ limit then line c else curve c := by
  have hsign : ¬ c < (0.0 : ℝ) := by norm_num [hc]
  have hcurve (value : ℝ) : withSignOf c value = value := if_neg hsign
  rw [lineAndCurve, magnitude_eq_abs, abs_of_nonneg hc, hcurve]

/-- The function is odd if its line is. -/
theorem lineAndCurve_neg {limit : ℝ} (hlimit : 0 ≤ limit) {line : ℝ → ℝ}
    (hline : ∀ c, line (-c) = -line c) (curve : ℝ → ℝ) (c : ℝ) :
    lineAndCurve limit line curve (-c) = -lineAndCurve limit line curve c := by
  have hzero : (0.0 : ℝ) = 0 := by norm_num
  unfold lineAndCurve withSignOf
  rw [magnitude_eq_abs, magnitude_eq_abs, abs_neg, hline, hzero]
  split
  · rfl
  · next hbeyond =>
    rcases lt_trichotomy c 0 with hneg | rfl | hpos
    · rw [if_pos hneg, if_neg (by linarith), neg_neg]
    · exact absurd (abs_zero.trans_le hlimit) hbeyond
    · rw [if_neg hpos.not_gt, if_pos (by linarith)]

/-- Removing gamma is a line and a curve. -/
theorem linearize_eq :
    (linearize : ℝ → ℝ) = lineAndCurve 0.04045 (fun c => c / 12.92) decodingCurve := rfl

/-- Applying gamma is a line and a curve. -/
theorem gammaEncode_eq :
    (gammaEncode : ℝ → ℝ) = lineAndCurve 0.00313098 (fun c => c * 12.92) encodingCurve := rfl

/-- Removing gamma is odd. -/
theorem linearize_neg (c : ℝ) : linearize (-c) = -linearize c := by
  rw [linearize_eq]
  exact lineAndCurve_neg (by norm_num) (neg_div 12.92) decodingCurve c

/-- Applying gamma is odd. -/
theorem gammaEncode_neg (c : ℝ) : gammaEncode (-c) = -gammaEncode c := by
  rw [gammaEncode_eq]
  exact lineAndCurve_neg (by norm_num) (fun c => neg_mul c 12.92) encodingCurve c

/-- Removing gamma follows its line and then its curve. -/
theorem linearize_of_nonneg {c : ℝ} (hc : 0 ≤ c) :
    linearize c = if c ≤ 0.04045 then c / 12.92 else decodingCurve c :=
  lineAndCurve_of_nonneg 0.04045 (fun c => c / 12.92) decodingCurve hc

/-- Applying gamma follows its line and then its curve. -/
theorem gammaEncode_of_nonneg {c : ℝ} (hc : 0 ≤ c) :
    gammaEncode c = if c ≤ 0.00313098 then c * 12.92 else encodingCurve c :=
  lineAndCurve_of_nonneg 0.00313098 (fun c => c * 12.92) encodingCurve hc

/-- On the line that applies gamma the function is the line, on both sides of zero. -/
theorem gammaEncode_of_abs_le {c : ℝ} (hc : |c| ≤ 0.00313098) : gammaEncode c = c * 12.92 := by
  have hline : magnitude c ≤ 0.00313098 := (magnitude_eq_abs c).trans_le hc
  exact if_pos hline

/-- Beyond its line the curve that removes gamma is above the end of the line. -/
theorem line_lt_decodingCurve {c : ℝ} (hc : 0.04045 < c) : 0.04045 / 12.92 < decodingCurve c := by
  have hend : (0 : ℝ) ≤ 0.04045 := by norm_num
  exact decodingCurve_bounds.1.trans
    (strictMonoOn_decodingCurve hend (Set.mem_Ici.mpr (hend.trans hc.le)) hc)

/-- Beyond its line the curve that applies gamma is above the end of the line that removes it. -/
theorem line_lt_encodingCurve {c : ℝ} (hc : 0.00313098 < c) : 0.04045 < encodingCurve c := by
  have hend : decodingCurve 0.04045 < c := decodingCurve_bounds.2.trans hc
  have hzero : 0 ≤ decodingCurve 0.04045 := decodingCurve_nonneg (by norm_num)
  calc (0.04045 : ℝ) = encodingCurve (decodingCurve 0.04045) :=
        (encodingCurve_decodingCurve (by norm_num)).symm
    _ < encodingCurve c := by
        have hpower := Real.rpow_lt_rpow hzero hend (by norm_num : (0 : ℝ) < 1.0 / 2.4)
        unfold encodingCurve
        linarith

/-- Removing gamma keeps the order of all values. -/
theorem strictMono_linearize : StrictMono (linearize : ℝ → ℝ) := by
  refine strictMono_of_odd_strictMonoOn_nonneg linearize_neg fun c hc d hd hcd => ?_
  rw [linearize_of_nonneg hc, linearize_of_nonneg hd]
  by_cases hd' : d ≤ 0.04045
  · rw [if_pos (hcd.le.trans hd'), if_pos hd']
    exact div_lt_div_of_pos_right hcd (by norm_num)
  · rw [if_neg hd']
    split
    · next hc' =>
      exact (div_le_div_of_nonneg_right hc' (by norm_num)).trans_lt
        (line_lt_decodingCurve (not_le.mp hd'))
    · exact strictMonoOn_decodingCurve hc hd hcd

/-- A value in the gap is encoded along the line and decoded along the curve. -/
theorem linearize_gammaEncode_of_mem {c : ℝ} (hc : c ∈ gap) :
    linearize (gammaEncode c) = decodingCurve (c * 12.92) := by
  obtain ⟨hbeyond, hline⟩ := hc
  have hpos : 0 ≤ c := le_trans (by norm_num) hbeyond.le
  rw [div_lt_iff₀ (by norm_num)] at hbeyond
  rw [gammaEncode_of_nonneg hpos, if_pos hline,
    linearize_of_nonneg (mul_nonneg hpos (by norm_num)), if_neg hbeyond.not_ge]

/-- Removing gamma undoes applying it for all values but those in the gap. -/
theorem linearize_gammaEncode_iff (c : ℝ) : linearize (gammaEncode c) = c ↔ |c| ∉ gap := by
  wlog hc : 0 ≤ c generalizing c
  · have hneg := this (-c) (by linarith)
    rwa [gammaEncode_neg, linearize_neg, neg_inj, abs_neg] at hneg
  rw [abs_of_nonneg hc]
  by_cases hgap : c ∈ gap
  · rw [linearize_gammaEncode_of_mem hgap]
    exact iff_of_false (lt_decodingCurve_line hgap.1.le).ne' (not_not.mpr hgap)
  refine iff_of_true ?_ hgap
  rw [gammaEncode_of_nonneg hc]
  split
  · next hline =>
    have hboth : c ≤ 0.04045 / 12.92 := not_lt.mp fun hbeyond => hgap ⟨hbeyond, hline⟩
    rw [le_div_iff₀ (by norm_num)] at hboth
    rw [linearize_of_nonneg (mul_nonneg hc (by norm_num)), if_pos hboth]
    exact mul_div_cancel_right₀ c (by norm_num)
  · next hcurve =>
    have hbeyond := line_lt_encodingCurve (not_le.mp hcurve)
    rw [linearize_of_nonneg (le_trans (by norm_num) hbeyond.le), if_neg hbeyond.not_ge]
    exact decodingCurve_encodingCurve hc

/-- Applying gamma undoes removing it for all values but those that are mapped into the gap. -/
theorem gammaEncode_linearize_iff (c : ℝ) :
    gammaEncode (linearize c) = c ↔ |linearize c| ∉ gap := by
  wlog hc : 0 ≤ c generalizing c
  · have hneg := this (-c) (by linarith)
    rwa [linearize_neg, gammaEncode_neg, neg_inj, abs_neg] at hneg
  rw [linearize_of_nonneg hc, gap, Set.mem_Ioc]
  split
  · next hline =>
    have hdecoded : c / 12.92 ≤ 0.04045 / 12.92 := div_le_div_of_nonneg_right hline (by norm_num)
    have hzero : 0 ≤ c / 12.92 := div_nonneg hc (by norm_num)
    have hend : c / 12.92 ≤ 0.00313098 := hdecoded.trans (by norm_num)
    rw [gammaEncode_of_nonneg hzero, if_pos hend, abs_of_nonneg hzero]
    exact iff_of_true (div_mul_cancel₀ c (by norm_num)) fun hgap => hgap.1.not_ge hdecoded
  · next hcurve =>
    rw [not_le] at hcurve
    have hbeyond := line_lt_decodingCurve hcurve
    have hzero : 0 ≤ decodingCurve c := le_trans (by norm_num) hbeyond.le
    rw [gammaEncode_of_nonneg hzero, abs_of_nonneg hzero]
    split
    · next hline =>
      -- The line that applies gamma is above the curve.
      have habove := lt_decodingCurve_line (c := c / 12.92)
        (div_le_div_of_nonneg_right hcurve.le (by norm_num))
      rw [div_mul_cancel₀ c (by norm_num), div_lt_iff₀ (by norm_num)] at habove
      exact iff_of_false habove.ne' (not_not.mpr ⟨hbeyond, hline⟩)
    · next hline =>
      exact iff_of_true (encodingCurve_decodingCurve hc) fun hgap => hline hgap.2

/-- Applying gamma keeps the order of values outside of the gap. -/
theorem gammaEncode_lt_of_not_mem {c d : ℝ} (hc : |c| ∉ gap) (hd : |d| ∉ gap) (hcd : c < d) :
    gammaEncode c < gammaEncode d := by
  rw [← strictMono_linearize.lt_iff_lt, (linearize_gammaEncode_iff c).mpr hc,
    (linearize_gammaEncode_iff d).mpr hd]
  exact hcd

/-- Applying gamma keeps the order of values on its line. -/
theorem gammaEncode_lt_of_abs_le {c d : ℝ} (hc : |c| ≤ 0.00313098) (hd : |d| ≤ 0.00313098)
    (hcd : c < d) : gammaEncode c < gammaEncode d := by
  rw [gammaEncode_of_abs_le hc, gammaEncode_of_abs_le hd]
  exact mul_lt_mul_of_pos_right hcd (by norm_num)

/-- A value in the gap overtakes one beyond it if what it is decoded to is no less. -/
def Overtakes (c d : ℝ) : Prop := c ∈ gap ∧ d ∈ Set.Ioc 0.00313098 (decodingCurve (c * 12.92))

/-- Only values on the line that applies gamma overtake others. -/
theorem Overtakes.abs_le {c d : ℝ} (h : Overtakes c d) : |c| ≤ 0.00313098 := by
  have hpos : 0 ≤ c := le_trans (by norm_num) h.1.1.le
  exact (abs_of_nonneg hpos).trans_le h.1.2

/-- Only values beyond the line that applies gamma are overtaken. -/
theorem Overtakes.lt_abs {c d : ℝ} (h : Overtakes c d) : 0.00313098 < |d| :=
  h.2.1.trans_le (le_abs_self d)

/-- Applying gamma keeps the order of a value on its line and one beyond, unless the first one
overtakes the other one. -/
theorem gammaEncode_lt_iff_of_beyond {c d : ℝ} (hc : |c| ≤ 0.00313098) (hd : 0.00313098 < d) :
    gammaEncode c < gammaEncode d ↔ ¬ Overtakes c d := by
  have hbeyond : |d| ∉ gap := fun hmem => hmem.2.not_gt (hd.trans_le (le_abs_self d))
  by_cases hgap : c ∈ gap
  · have hovertakes : Overtakes c d ↔ d ≤ decodingCurve (c * 12.92) := by
      rw [Overtakes, and_iff_right hgap, Set.mem_Ioc, and_iff_right hd]
    rw [hovertakes, not_le, ← strictMono_linearize.lt_iff_lt, linearize_gammaEncode_of_mem hgap,
      (linearize_gammaEncode_iff d).mpr hbeyond]
  · refine iff_of_true ?_ fun hovertakes => hgap hovertakes.1
    have hline : (0 : ℝ) ≤ 0.00313098 := by norm_num
    rcases lt_or_ge c 0 with hneg | hpos
    · -- Zero is on the line, and outside of the gap.
      have hzero : |(0 : ℝ)| ≤ 0.00313098 := abs_zero.trans_le hline
      have hzeroGap : |(0 : ℝ)| ∉ gap := fun hmem => hmem.1.not_ge (by norm_num)
      exact (gammaEncode_lt_of_abs_le hc hzero hneg).trans
        (gammaEncode_lt_of_not_mem hzeroGap hbeyond (hline.trans_lt hd))
    · rw [← abs_of_nonneg hpos] at hgap
      exact gammaEncode_lt_of_not_mem hgap hbeyond ((le_abs_self c).trans_lt (hc.trans_lt hd))

/-- Applying gamma keeps the order of two values, unless one of them overtakes the other one on the
same side of zero. -/
theorem gammaEncode_lt_iff {c d : ℝ} (hcd : c < d) :
    gammaEncode c < gammaEncode d ↔ ¬ Overtakes c d ∧ ¬ Overtakes (-d) (-c) := by
  by_cases hc : |c| ≤ 0.00313098 <;> by_cases hd : |d| ≤ 0.00313098
  · refine iff_of_true (gammaEncode_lt_of_abs_le hc hd hcd) ⟨fun h => ?_, fun h => ?_⟩
    · exact h.lt_abs.not_ge hd
    · exact h.lt_abs.not_ge ((abs_neg c).trans_le hc)
  · -- The greater value is beyond the line, so it is above zero.
    have hbeyond : 0.00313098 < d :=
      (lt_abs.mp (not_le.mp hd)).resolve_right fun hneg => by linarith [(abs_le.mp hc).1]
    rw [gammaEncode_lt_iff_of_beyond hc hbeyond]
    exact (and_iff_left fun h => hd ((abs_neg d).symm.trans_le h.abs_le)).symm
  · -- The other side of zero is the same with both signs changed.
    have hbeyond : 0.00313098 < -c :=
      (lt_abs.mp (not_le.mp hc)).resolve_left fun hpos => by linarith [(abs_le.mp hd).2]
    rw [← neg_lt_neg_iff, ← gammaEncode_neg, ← gammaEncode_neg,
      gammaEncode_lt_iff_of_beyond ((abs_neg d).trans_le hd) hbeyond]
    exact (and_iff_right fun h => hc h.abs_le).symm
  · refine iff_of_true ?_ ⟨fun h => hc h.abs_le, fun h => hd ((abs_neg d).symm.trans_le h.abs_le)⟩
    exact gammaEncode_lt_of_not_mem (fun hmem => hc hmem.2) (fun hmem => hd hmem.2) hcd

/-- The transfer functions of sRGB undo each other for all values outside of the gap between the
ends of their lines, and for no others. Removing gamma keeps the order of all values, and applying
it that of all but those that overtake others. -/
theorem transfer_inverse_iff (c : ℝ) :
    (linearize (gammaEncode c) = c ↔ |c| ∉ gap) ∧
    (gammaEncode (linearize c) = c ↔ |linearize c| ∉ gap) ∧
    ∀ d, c < d →
      linearize c < linearize d ∧
      (gammaEncode c < gammaEncode d ↔ ¬ Overtakes c d ∧ ¬ Overtakes (-d) (-c)) :=
  ⟨linearize_gammaEncode_iff c, gammaEncode_linearize_iff c,
    fun _ hcd => ⟨strictMono_linearize hcd, gammaEncode_lt_iff hcd⟩⟩

/-- A value below zero and before the gap is restored, and stays below one half. -/
theorem transfer_inverse_iff_below_zero :
    linearize (gammaEncode (-0.003 : ℝ)) = -0.003 ∧ (-0.003 : ℝ) < 0.5 ∧
      linearize (-0.003 : ℝ) < linearize 0.5 ∧ gammaEncode (-0.003 : ℝ) < gammaEncode 0.5 := by
  obtain ⟨hinverse, -, horder⟩ := transfer_inverse_iff (-0.003)
  have hcd : (-0.003 : ℝ) < 0.5 := by norm_num
  have hgap : |(-0.003 : ℝ)| ∉ gap := by norm_num [gap]
  have hright : ¬ Overtakes (-0.003) 0.5 := fun h => absurd h.1.1 (by norm_num)
  have hleft : ¬ Overtakes (-0.5) (- -0.003) := fun h => absurd h.1.1 (by norm_num)
  obtain ⟨hlinear, hencoded⟩ := horder 0.5 hcd
  exact ⟨hinverse.mpr hgap, hcd, hlinear, hencoded.mpr ⟨hright, hleft⟩⟩

/-- In the gap neither function undoes the other one, and a value in the gap is encoded above a
greater value beyond it. -/
theorem transfer_in_gap :
    linearize (gammaEncode (0.003130979 : ℝ)) ≠ 0.003130979 ∧
      gammaEncode (linearize (0.04045219 : ℝ)) ≠ 0.04045219 ∧
      (0.003130979 : ℝ) < 0.003130981 ∧
      gammaEncode (0.003130981 : ℝ) < gammaEncode (0.003130979 : ℝ) := by
  have hcurve : linearize (0.04045219 : ℝ) = decodingCurve 0.04045219 := by
    rw [linearize_of_nonneg (by norm_num), if_neg (by norm_num)]
  have hmem : |linearize (0.04045219 : ℝ)| ∈ gap := by
    rw [hcurve, abs_of_nonneg (decodingCurve_nonneg (by norm_num))]
    exact ⟨line_lt_decodingCurve (by norm_num),
      ((decodingCurve_lt_iff (by norm_num) (by norm_num)).mpr (by norm_num)).le⟩
  have hbeyond : linearize (gammaEncode (0.003130981 : ℝ)) = 0.003130981 :=
    (linearize_gammaEncode_iff _).mpr (by norm_num [gap])
  have hline : gammaEncode (0.003130979 : ℝ) = 0.003130979 * 12.92 :=
    gammaEncode_of_abs_le (by norm_num)
  refine ⟨fun h => (linearize_gammaEncode_iff _).mp h (by norm_num [gap]),
    fun h => (gammaEncode_linearize_iff _).mp h hmem, by norm_num, ?_⟩
  rw [← strictMono_linearize.lt_iff_lt, hbeyond, hline, linearize_of_nonneg (by norm_num),
    if_neg (by norm_num), lt_decodingCurve_iff (by norm_num) (by norm_num)]
  norm_num

end ColorWords.Conversion
