import ColorWords.Proofs.Scalar.Binary64Reading
import ColorWords.Proofs.Scalar.Binary64Signs

/-!
# The fields of 64-bit floats

The sign, exponent and fraction that a float is unpacked to are parts of its bit pattern as a
number. So the significand and the scale of a finite float make up the magnitude that it stands
for, and rounding to integers is exact.
-/

namespace ColorWords.Binary64

open Float.Model Float.Model.UnpackedFloat

/-! ## Unpacked fields -/

/-- The sign that the sign bit stands for. -/
def signOf (x : Float) : Sign := if isNegative x then .negative else .positive

/-- The fraction is unpacked from the low bits. -/
theorem toNat_unpackMantissa (x : Float) :
    (@unpackMantissa Format.binary64 x.toModel.toBits.toBitVec).toNat = fractionField x := by
  simp [unpackMantissa, fractionField, bits, exponentUnit, Float.toBits]

/-- The exponent is unpacked from the bits between. -/
theorem toNat_unpackExponent (x : Float) :
    (@unpackExponent Format.binary64 x.toModel.toBits.toBitVec).toNat = exponentField x := by
  simp [unpackExponent, exponentField, bits, exponentUnit, Float.toBits, Nat.shiftRight_eq_div_pow]

/-- The sign is unpacked from the highest bit. -/
theorem ofBitVec_unpackSign_toBits (x : Float) :
    Sign.ofBitVec (@unpackSign Format.binary64 x.toModel.toBits.toBitVec) = signOf x := by
  have hbit : (@unpackSign Format.binary64 x.toModel.toBits.toBitVec).toNat =
      bits x / signUnit % 2 := by
    simp [unpackSign, bits, signUnit, Float.toBits, Nat.shiftRight_eq_div_pow]
  have hlt : bits x < 2 * signUnit := x.toBits.toBitVec.isLt
  rw [Sign.ofBitVec, signOf, isNegative]
  generalize @unpackSign Format.binary64 x.toModel.toBits.toBitVec = sign at hbit ⊢
  rcases lt_or_ge (bits x) signUnit with hsmall | hlarge
  · rw [Nat.div_eq_of_lt hsmall, Nat.zero_mod] at hbit
    have hzero : sign = 0#1 := BitVec.eq_of_toNat_eq hbit
    simp [hzero, hsmall]
  · have hquotient : bits x / signUnit = 1 :=
      Nat.div_eq_of_lt_le (by rwa [one_mul]) hlt
    rw [hquotient] at hbit
    have hone : sign = 1#1 := BitVec.eq_of_toNat_eq hbit
    simp [hone, hlarge]

/-- A float is unpacked to its fields. -/
theorem unpack_eq (x : Float) :
    x.toModel.unpack =
      if exponentField x = 2047 then
        if fractionField x = 0 then .infinity (signOf x) else .notANumber
      else if h : significand x = 0 then .zero (signOf x)
      else .finite (signOf x) (significand x) (scale x - 1074) (Nat.pos_of_ne_zero h) := by
  have hfraction := toNat_unpackMantissa x
  have hexponent := toNat_unpackExponent x
  have hsign := ofBitVec_unpackSign_toBits x
  change UnpackedFloat.unpack Format.binary64 x.toModel.toBits.toBitVec = _
  have hones : @unpackExponent Format.binary64 x.toModel.toBits.toBitVec =
      -1#(Format.binary64.exponentBits) ↔ exponentField x = 2047 := by
    rw [← hexponent, ← BitVec.toNat_inj]
    rfl
  have hzeros : @unpackExponent Format.binary64 x.toModel.toBits.toBitVec =
      0#(Format.binary64.exponentBits) ↔ exponentField x = 0 := by
    rw [← hexponent, ← BitVec.toNat_inj]
    rfl
  have hempty : @unpackMantissa Format.binary64 x.toModel.toBits.toBitVec =
      0#(Format.binary64.mantissaBitsWithoutImplicit) ↔ fractionField x = 0 := by
    rw [← hfraction, ← BitVec.toNat_inj]
    rfl
  have hbias : ((Format.binary64.exponentBias : ℤ) +
      (Format.binary64.mantissaBitsWithoutImplicit : ℤ)) = 1075 := by decide
  unfold UnpackedFloat.unpack significand
  simp only [hones, hzeros, hempty, hsign, hexponent, hfraction, hbias]
  split
  · rfl
  · split
    · next hsubnormal => simp [hsubnormal, scale]
    · next hnormal =>
      have himplicit := toNat_implicit (@unpackMantissa Format.binary64 x.toModel.toBits.toBitVec)
      rw [hfraction] at himplicit
      have hpos : fractionField x + exponentUnit ≠ 0 := by unfold exponentUnit; omega
      have hscale : (scale x : ℤ) - 1074 = exponentField x - 1075 := by unfold scale; omega
      rw [dif_neg hpos]
      simp only [himplicit, hscale, exponentUnit, UnpackedFloat.finite.injEq, true_and, and_true]
      omega

/-! ## Magnitudes -/

/-- The magnitude that the significand and the scale of a float make up. -/
noncomputable def magnitudeOf (x : Float) : ℝ := significand x * 2 ^ (scale x - 1074 : ℤ)

/-- A float is finite exactly if its fields say so, and then it stands for what they make up. -/
theorem hasValue_iff {x : Float} {p : ℝ} :
    HasValue x p ↔ isFinite x = true ∧ p = withSign (signOf x) (magnitudeOf x) := by
  have hfinite : isFinite x = true ↔ exponentField x ≠ 2047 := by simp [isFinite]
  have hunpack := unpack_eq x
  rw [HasValue, hfinite]
  split at hunpack
  · next hones =>
    have hinfinite : ¬ IsCanonical x.toModel.unpack := by
      rw [hunpack]
      split <;> exact id
    exact iff_of_false (fun h => hinfinite h.1) fun h => h.1 hones
  · next hfields =>
    rw [and_iff_right hfields]
    split at hunpack
    · next hzero =>
      have hvalue : withSign (signOf x) (magnitudeOf x) = 0 := by
        rw [magnitudeOf, hzero, Nat.cast_zero, zero_mul]
        cases signOf x
        · exact neg_zero
        · rfl
      rw [hunpack, hvalue, eq_comm]
      exact and_iff_right trivial
    · have hcanonical := (isCanonical_of_unpack hunpack).1
      rw [hunpack, eq_comm]
      exact and_iff_right hcanonical

/-- A finite float without a significand is the zero with its sign. -/
theorem unpack_eq_zero {x : Float} (hfinite : isFinite x = true) (hzero : significand x = 0) :
    x.toModel.unpack = .zero (signOf x) := by
  have hones : exponentField x ≠ 2047 := by simpa [isFinite] using hfinite
  rw [unpack_eq, if_neg hones, dif_pos hzero]

/-- The fields of a finite float make up its magnitude. -/
theorem HasValue.abs_eq {x : Float} {p : ℝ} (h : HasValue x p) : |p| = magnitudeOf x := by
  have hnonneg : 0 ≤ magnitudeOf x := by unfold magnitudeOf; positivity
  rw [(hasValue_iff.mp h).2, abs_withSign, abs_of_nonneg hnonneg]

/-- A finite float is what has its magnitude, with the sign attached. -/
theorem eq_signed_magnitude {x z : Float} (h : isFinite x = true)
    (hz : HasValue z (magnitudeOf x)) (hplain : IsPlain z) :
    (if isNegative x then -z else z) = x := by
  have hvalue := hasValue_iff.mpr ⟨h, rfl⟩
  by_cases hzero : significand x = 0
  · have hmagnitude : magnitudeOf x = 0 := by rw [magnitudeOf, hzero, Nat.cast_zero, zero_mul]
    have hunpack := unpack_eq_zero h hzero
    rw [hmagnitude] at hz
    rw [hz.eq_of_isPlain hasValue_zero hplain isPlain_zero]
    unfold signOf at hunpack
    split
    · next hnegative =>
      rw [if_pos hnegative] at hunpack
      exact congrArg Float.ofModel (eq_of_unpack_eq (Eq.trans rfl hunpack.symm))
    · next hpositive =>
      rw [if_neg hpositive] at hunpack
      exact congrArg Float.ofModel (eq_of_unpack_eq (Eq.trans rfl hunpack.symm))
  · have hne : magnitudeOf x ≠ 0 := by unfold magnitudeOf; positivity
    have hne' := neg_ne_zero.mpr hne
    unfold signOf at hvalue
    split
    · next hnegative =>
      rw [if_pos hnegative] at hvalue
      exact hz.neg.eq_of_isPlain hvalue (hz.neg.isPlain hne') (hvalue.isPlain hne')
    · next hpositive =>
      rw [if_neg hpositive] at hvalue
      exact hz.eq_of_isPlain hvalue hplain (hvalue.isPlain hne)

/-- Significands have at most 53 bits. -/
theorem significand_lt_two_pow (x : Float) : significand x < 2 ^ 53 := by
  have hfraction : fractionField x < 2 ^ 52 := Nat.mod_lt _ (by decide)
  unfold significand exponentUnit
  split <;> omega

/-! ## Rounding to integers -/

/-- Natural numbers of at most 53 bits are exact. -/
theorem hasValue_ofNat {n : ℕ} (h : n < 2 ^ 53) : HasValue (Float.ofNat n) n := by
  refine hasValue_ofScientific ?_ (natCast_lt h)
  simpa using (isRepresentable_natCast h).roundsTo

/-- Attaching a sign attaches it to the number. -/
theorem hasValue_signed {n : ℕ} (h : n < 2 ^ 53) (x : Float) :
    HasValue (signed (isNegative x) n) (withSign (signOf x) n) := by
  unfold signed signOf
  split
  · exact (hasValue_ofNat h).neg
  · exact hasValue_ofNat h

/-- Adding one half before dividing rounds a quotient to the nearest integer. -/
theorem abs_div_sub_le (n gap : ℕ) :
    |(n : ℝ) / 2 ^ gap - ((2 * n + 2 ^ gap) / 2 ^ (gap + 1) : ℕ)| ≤ 1 / 2 := by
  have hunit : (0 : ℝ) < 2 ^ gap := by positivity
  have hlow : (((2 * n + 2 ^ gap) / 2 ^ (gap + 1) : ℕ) : ℝ) * 2 ^ (gap + 1) ≤ 2 * n + 2 ^ gap := by
    exact_mod_cast Nat.div_mul_le_self (2 * n + 2 ^ gap) (2 ^ (gap + 1))
  have hhigh : (2 * n + 2 ^ gap : ℝ) <
      2 ^ (gap + 1) * (((2 * n + 2 ^ gap) / 2 ^ (gap + 1) : ℕ) + 1) := by
    exact_mod_cast Nat.lt_mul_div_succ (2 * n + 2 ^ gap) (by positivity : 0 < 2 ^ (gap + 1))
  generalize (2 * n + 2 ^ gap) / 2 ^ (gap + 1) = k at hlow hhigh
  have hn : (n : ℝ) = n / 2 ^ gap * 2 ^ gap := (div_mul_cancel₀ _ hunit.ne').symm
  generalize (n : ℝ) / 2 ^ gap = v at hn ⊢
  rw [hn, pow_succ] at hlow hhigh
  have hbelow : 2 * (k : ℝ) ≤ 2 * v + 1 := le_of_mul_le_mul_right (by linarith) hunit
  have habove : 2 * v + 1 < 2 * (k + 1 : ℝ) := lt_of_mul_lt_mul_right (by linarith) hunit.le
  exact abs_le.mpr ⟨by linarith, by linarith⟩

/-- A float of the least scales is a significand over a power of two. -/
theorem magnitudeOf_eq_div {x : Float} (h : scale x ≤ 1074) :
    magnitudeOf x = significand x / 2 ^ (1074 - scale x) := by
  have hexponent : (scale x - 1074 : ℤ) = -((1074 - scale x : ℕ) : ℤ) := by omega
  rw [magnitudeOf, hexponent, zpow_neg, zpow_natCast, div_eq_mul_inv]

/-- A float of a larger scale is an integer. -/
theorem magnitudeOf_eq_natCast {x : Float} (h : 1074 ≤ scale x) :
    magnitudeOf x = (significand x * 2 ^ (scale x - 1074) : ℕ) := by
  have hexponent : (scale x - 1074 : ℤ) = ((scale x - 1074 : ℕ) : ℤ) := by omega
  rw [magnitudeOf, hexponent, zpow_natCast]
  push_cast
  rfl

/-- Rounding leads to an integer no more than one half away. -/
theorem HasValue.round {x : Float} {p : ℝ} (h : HasValue x p) :
    ∃ n : ℤ, HasValue (Binary64.round x) n ∧ |p - n| ≤ 1 / 2 := by
  obtain ⟨hfinite, hp⟩ := hasValue_iff.mp h
  unfold Binary64.round
  split
  · next hsmall =>
    rw [Bool.and_eq_true, decide_eq_true_eq] at hsmall
    have hnear := abs_div_sub_le (significand x) (1074 - scale x)
    rw [← magnitudeOf_eq_div hsmall.2.le] at hnear
    change ∃ n : ℤ, HasValue (signed (isNegative x)
      ((2 * significand x + 2 ^ (1074 - scale x)) / 2 ^ (1074 - scale x + 1))) n ∧ _
    generalize hrounded :
      (2 * significand x + 2 ^ (1074 - scale x)) / 2 ^ (1074 - scale x + 1) = n at hnear ⊢
    have hlt : n < 2 ^ 53 := by
      rw [← hrounded, Nat.div_lt_iff_lt_mul (by positivity)]
      have hlong := significand_lt_two_pow x
      have hgap : 2 ^ 1 ≤ 2 ^ (1074 - scale x) := Nat.pow_le_pow_right two_pos (by omega)
      rw [pow_succ 2 (1074 - scale x)]
      omega
    refine ⟨(signOf x).apply n, ?_, ?_⟩
    · rw [cast_apply]
      exact hasValue_signed hlt x
    · have hdifference : p - ((signOf x).apply n : ℤ) =
          withSign (signOf x) (magnitudeOf x - n) := by
        rw [hp, cast_apply]
        cases signOf x
        · exact (neg_sub_neg _ _).trans (neg_sub _ _).symm
        · rfl
      rwa [hdifference, abs_withSign]
  · next hlarge =>
    have hscale : 1074 ≤ scale x := by
      by_contra hlt
      exact hlarge (by rw [hfinite, decide_eq_true (not_le.mp hlt)]; rfl)
    have hinteger := hp
    rw [magnitudeOf_eq_natCast hscale, ← cast_apply] at hinteger
    exact ⟨_, hinteger ▸ h, by rw [hinteger, sub_self, abs_zero]; norm_num⟩

end ColorWords.Binary64
