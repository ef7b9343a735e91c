import ColorWords.Proofs.Color.FloatRoundTrip

/-!
# How many digits of a float color can be written

As long as the factor is finite, each channel is read back within half of a unit and three rounding
errors. A factor that is infinite leaves nothing of a channel but what is not a number, and the text
of this is no numeral.
-/

namespace ColorWords

open Scalar Binary64 Float.Model Float.Model.UnpackedFloat

namespace Binary64

/-- The floats are finite, and their numbers differ by no more than the given one. -/
def IsClose (tolerance : ℝ) (x y : Float) : Prop :=
  ∃ p q, HasValue x p ∧ HasValue y q ∧ |p - q| ≤ tolerance

/-! ## Floats that are not numbers -/

/-- A float whose exponent field says so is finite. -/
theorem isFinite_eq_false {x : Float} (h : ¬ IsCanonical x.toModel.unpack) : isFinite x = false :=
  Bool.eq_false_iff.mpr fun hfinite => h (hasValue_iff.mpr ⟨hfinite, rfl⟩).1

/-- What is not a number is written as such, without a sign. -/
theorem write_of_notANumber {x : Float} (h : x.toModel.unpack = .notANumber) :
    write x = "NaN".toList := by
  have hinfinite : isFinite x = false := isFinite_eq_false (by rw [h]; exact id)
  have hfraction : fractionField x ≠ 0 := by
    intro hzero
    have hones : exponentField x = 2047 := by simpa [isFinite] using hinfinite
    rw [unpack_eq, if_pos hones, if_pos hzero] at h
    cases h
  have hself : (x == x) = false := by
    change (x.toModel.unpack.compare x.toModel.unpack == some Ordering.eq) = false
    rw [h]
    rfl
  rw [write, hinfinite, if_neg hfraction, hself, Bool.and_false]
  rfl

/-- What is not finite is not rounded. -/
theorem round_of_not_isCanonical {x : Float} (h : ¬ IsCanonical x.toModel.unpack) :
    Binary64.round x = x := by
  rw [Binary64.round, isFinite_eq_false h]
  rfl

/-- A product is packed from the product of what the factors are unpacked to. -/
theorem unpack_mul (x y : Float) : (x * y).toModel.unpack = (Float.Model.pack
    (UnpackedFloat.mul Format.binary64 x.toModel.unpack y.toModel.unpack)).unpack := rfl

/-- So is a quotient. -/
theorem unpack_div (x y : Float) : (x / y).toModel.unpack = (Float.Model.pack
    (UnpackedFloat.div Format.binary64 x.toModel.unpack y.toModel.unpack)).unpack := rfl

/-- A finite float times infinity is not finite, and over infinity it is not a number. -/
theorem unpack_round_mul_div {x factor : Float} {p : ℝ} (hx : HasValue x p)
    (hfactor : factor.toModel.unpack = .infinity .positive) :
    (Binary64.round (x * factor) / factor).toModel.unpack = .notANumber := by
  have hproduct : (x * factor).toModel.unpack = .notANumber ∨
      ∃ sign, (x * factor).toModel.unpack = .infinity sign := by
    rw [unpack_mul, hfactor]
    obtain ⟨sign, hzero⟩ | ⟨sign, m, e, hm, hfinite⟩ := hx.1.zero_or_finite
    · have hmul : UnpackedFloat.mul Format.binary64 (.zero sign) (.infinity .positive) =
          .notANumber := rfl
      rw [hzero, hmul]
      exact Or.inl rfl
    · have hmul : UnpackedFloat.mul Format.binary64 (.finite sign m e hm) (.infinity .positive) =
          .infinity (sign * .positive) := rfl
      rw [hfinite, hmul]
      exact Or.inr ⟨sign * .positive, by cases sign <;> rfl⟩
  have hround : Binary64.round (x * factor) = x * factor := by
    refine round_of_not_isCanonical ?_
    rcases hproduct with h | ⟨sign, h⟩ <;> rw [h] <;> exact id
  have hdiv : UnpackedFloat.div Format.binary64 (x * factor).toModel.unpack (.infinity .positive) =
      .notANumber := by
    rcases hproduct with h | ⟨sign, h⟩ <;> rw [h] <;> rfl
  rw [hround, unpack_div, hfactor, hdiv]
  rfl

/-- What is not a number is not the same as any float. -/
theorem same_of_notANumber {x : Float} (h : x.toModel.unpack = .notANumber) (y : Float) :
    same x y = false := by
  have hle : ¬ x ≤ y := fun hle => by
    obtain ⟨a, -, ha, -⟩ := (Binary64.le_iff x y).mp hle
    rw [floatKey?, h] at ha
    cases ha
  rw [same, decide_eq_false hle, Bool.false_and]

end Binary64

namespace Color

/-! ## Finite factors -/

section Finite

variable {places : ℕ} {c : Color Float}

/-- The factor of five to 308 decimals is finite and large. -/
theorem exists_hasValue_factor (h : 5 ≤ places) (hle : places ≤ 308) :
    ∃ f, HasValue (powNat 10.0 places) f ∧ 99999 ≤ f := by
  obtain ⟨f, hf, -, -⟩ := isBelow_powNat_ten hle
  obtain hinfinite | ⟨g, hg, hle⟩ := isAbove_powNat_ten places
  · have hcanonical := hf.1
    rw [hinfinite] at hcanonical
    exact hcanonical.elim
  · refine ⟨g, hg, le_trans ?_ hle⟩
    have hpower : (99999 : ℝ) ≤ (10 * (1 - roundingUnit)) ^ 5 := by
      rw [roundingUnit, zpow_neg]
      norm_num
    have hone : (1 : ℝ) ≤ 10 * (1 - roundingUnit) := by
      rw [roundingUnit, zpow_neg]
      norm_num
    exact hpower.trans (pow_le_pow_right₀ hone h)

/-- A channel is close to what it is rounded and limited to. -/
theorem isClose_clamp_roundTo {f l h : ℝ} {low high x : Float}
    (hfactor : HasValue (powNat 10.0 places) f) (hf : 99999 ≤ f) (hlow : HasValue low l)
    (hhigh : HasValue high h) (hl : -1 ≤ l) (hh : h ≤ 1) (hx : Within low high x) :
    IsClose (1 / 10 ^ 5) x (clamp low high (numberOrZero (roundTo (powNat 10.0 places) x))) := by
  have hone : 1 ≤ f := by linarith
  have hsmall : 1 / 2 / f + 3 * roundingUnit ≤ 1 / 10 ^ 5 := by
    have hunit : 1 / 2 / f ≤ 1 / 2 / 99999 :=
      div_le_div_of_nonneg_left (by norm_num) (by norm_num) hf
    rw [roundingUnit, zpow_neg]
    norm_num at hunit ⊢
    linarith
  obtain ⟨p, hp, hlp, hph⟩ := exists_hasValue_of_within hlow hhigh hx
  have hle : |p| ≤ 1 := abs_le.mpr ⟨by linarith, by linarith⟩
  obtain ⟨n, r, hmultiple, hr, -⟩ := exists_hasValue_roundTo hfactor hone hp hle
  refine ⟨p, clamp l h r, hp, ?_, ?_⟩
  · rw [hr.numberOrZero_eq]
    exact hlow.clamp hhigh hr
  · exact (abs_sub_clamp_le ⟨hlp, hph⟩ r).trans
      ((hmultiple.error_le hfactor hone hle).trans hsmall)

/-- The channels of a normal color are close to those that are read back. -/
theorem channelwise_isClose (hc : c.IsNormal) {f : ℝ} (hfactor : HasValue (powNat 10.0 places) f)
    (hf : 99999 ≤ f) : Channelwise (IsClose (1 / 10 ^ 5)) c (c.reread places) := by
  have hlimit : HasValue Lab.axisLimit (1 / 2) := hasValue_half
  have hunit {x : Float} (hx : Within 0.0 1.0 x) :=
    isClose_clamp_roundTo hfactor hf hasValue_zero hasValue_one (by norm_num) le_rfl hx
  have haxis {x : Float} (hx : Within (-Lab.axisLimit) Lab.axisLimit x) :=
    isClose_clamp_roundTo hfactor hf hlimit.neg hlimit (by norm_num) (by norm_num) hx
  refine ⟨hunit hc.lightness, haxis hc.a, haxis hc.b, ?_⟩
  rw [reread]
  split
  · next hsame =>
    obtain ⟨p, hp, -⟩ := exists_hasValue_of_mem hc (x := c.alpha) (by simp)
    have hlimited : unit (1.0 : Float) = 1.0 := by decide +kernel
    refine ⟨p, 1, hp, ?_, ?_⟩
    · change HasValue (unit 1.0) 1
      rw [hlimited]
      exact hasValue_one
    · rw [(hp.same_iff hasValue_one).mp hsame, sub_self, abs_zero]
      norm_num
  · exact hunit hc.alpha

end Finite

/-! ## Infinite factors -/

section Infinite

variable {places : ℕ} {c : Color Float}

/-- A channel is written as what is not a number if the factor is infinite. -/
theorem writeChannel_of_infinity {factor x : Float} {p : ℝ} (hx : HasValue x p)
    (hfactor : factor.toModel.unpack = .infinity .positive) :
    writeChannel factor x = "NaN".toList := by
  have hnan := unpack_round_mul_div hx hfactor
  have hrounded : roundTo factor x = Binary64.round (x * factor) / factor := by
    have hsame := same_of_notANumber hnan 0.0
    rw [roundTo, hx.numberOrZero_eq]
    change (if same (Binary64.round (x * factor) / factor) 0.0 then 0.0 else _) = _
    rw [hsame]
    rfl
  rw [writeChannel, hrounded]
  exact write_of_notANumber hnan

/-- With more than 308 decimals nothing is left of the channels of a normal color. -/
theorem write_of_infinity (hc : c.IsNormal) (h : 309 ≤ places) :
    c.write places = functionalText "NaN".toList "NaN".toList "NaN".toList
      (if same c.alpha 1.0 then [] else alphaText "NaN".toList) := by
  have hchannel {x : Float} (hx : x ∈ [c.lab.lightness, c.lab.a, c.lab.b, c.alpha]) :
      writeChannel (powNat 10.0 places) x = "NaN".toList := by
    obtain ⟨p, hp, -⟩ := exists_hasValue_of_mem hc hx
    exact writeChannel_of_infinity hp (unpack_powNat_ten h)
  rw [write_eq_functionalText, hchannel (x := c.lab.lightness) (by simp),
    hchannel (x := c.lab.a) (by simp), hchannel (x := c.lab.b) (by simp),
    hchannel (x := c.alpha) (by simp)]

/-- The text of this has letters that are in no numeral. -/
theorem not_hasFields_of_infinity (hc : c.IsNormal) (h : 309 ≤ places) :
    ¬ HasFields (fun text => ∃ digits, Decimal.IsNumeral digits text) (c.write places) := by
  intro hfields
  refine hfields.not_mem (d := 'N')
    (fun ⟨_, hx⟩ => hx.not_mem (by decide) (by decide) (by decide)) (by decide) ?_
  rw [write_of_infinity hc h]
  have hletter : 'N' ∈ "NaN".toList := by decide
  exact List.mem_append_right _
    (List.mem_append_left _ (List.mem_append_left _ (List.mem_append_left _ hletter)))

/-- A text keeps a color if its fields are numerals and it is read as a color with channels close to
those of the color. -/
structure IsKept (tolerance : ℝ) (text : List Char) (c : Color Float) : Prop where
  hasFields : HasFields (fun field => ∃ digits, Decimal.IsNumeral digits field) text
  exists_read : ∃ parsed : Color Float, read text = .ok parsed ∧
    Channelwise (IsClose tolerance) c parsed

/-- From five decimals on the text of a normal color keeps it as long as there are no more than
308. -/
theorem isKept_write_iff (hc : c.IsNormal) (h : 5 ≤ places) :
    IsKept (1 / 10 ^ 5) (c.write places) c ↔ places ≤ 308 := by
  constructor
  · intro hkept
    by_contra hlarge
    exact not_hasFields_of_infinity hc (by omega) hkept.hasFields
  · intro hle
    obtain ⟨f, hfactor, hf⟩ := exists_hasValue_factor h hle
    obtain ⟨hfields, hread⟩ := read_write_of_factor hc hfactor (by linarith)
    exact ⟨hfields, c.reread places, hread, channelwise_isClose hc hfactor hf⟩

end Infinite

end Color

end ColorWords
