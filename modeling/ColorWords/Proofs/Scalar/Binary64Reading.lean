import ColorWords.Proofs.Decimal.Text
import ColorWords.Proofs.Scalar.Binary64Division
import ColorWords.Scalar.Binary64Text

/-!
# Reading 64-bit floats

A decimal is read as the float that the exact number is rounded to. Short decimals are quotients or
products of two exact floats; for all others the exact number is rounded as a whole. Decimals far
beyond the range are not computed at all, but they are beyond it when rounded as well.
-/

namespace ColorWords.Binary64

open Float.Model Float.Model.UnpackedFloat

/-! ## Exact floats -/

/-- A representable number in range is packed exactly. -/
theorem IsNearest.hasValue_exact {v : ℝ} {u : UnpackedFloat} (h : IsNearest v u)
    (hv : IsRepresentable v) (hlt : |v| < 2 ^ (1024 : ℤ)) {z : Float}
    (hz : z.toModel = Float.Model.pack u) : HasValue z v := by
  have hvalue := h.roundsTo.eq_of_isRepresentable hv
  have hunpack := unpack_of_isCanonical h.canonical (by rwa [hvalue]) hz
  exact ⟨by rw [hunpack]; exact h.canonical, by rw [hunpack, hvalue]⟩

/-- Representable numbers are rounded already. -/
theorem IsRepresentable.roundsTo {v : ℝ} (h : IsRepresentable v) : RoundsTo v v := by
  obtain ⟨n, k, -, -, hv⟩ := id h
  have hrounds := (isNearest_normalize n k .positive).roundsTo
  rw [← hv] at hrounds
  exact hrounds.eq_of_isRepresentable h ▸ hrounds

/-- Natural numbers of at most 53 bits are representable. -/
theorem isRepresentable_natCast {n : ℕ} (h : n < 2 ^ 53) : IsRepresentable n := by
  refine ⟨n, 0, ?_, by norm_num, by simp⟩
  rw [Nat.abs_cast]
  exact_mod_cast h

/-- They are in range. -/
theorem natCast_lt {n : ℕ} (h : n < 2 ^ 53) : (n : ℝ) < 2 ^ (1024 : ℤ) := by
  have hlarge : (2 : ℝ) ^ (53 : ℤ) ≤ 2 ^ (1024 : ℤ) := zpow_le_zpow_right₀ one_le_two (by norm_num)
  exact lt_of_lt_of_le (by exact_mod_cast h) hlarge

/-- Natural numbers of at most 53 bits are exact floats. -/
theorem hasValue_toFloat {n : ℕ} (h : n < 2 ^ 53) : HasValue n.toUInt64.toFloat n := by
  have hmod : n.toUInt64.toNat = n := by
    rw [Nat.toUInt64, UInt64.toNat_ofNat', Nat.mod_eq_of_lt (by omega)]
  have hmodel : n.toUInt64.toFloat.toModel =
      Float.Model.pack (UnpackedFloat.normalize Format.binary64 n 0 .positive) := by
    change Float.Model.pack (UnpackedFloat.normalize _ (n.toUInt64.toNat : ℤ) 0 .positive) = _
    rw [hmod]
  have hnearest := isNearest_normalize n 0 .positive
  rw [zpow_zero, mul_one, Int.cast_natCast] at hnearest
  refine hnearest.hasValue_exact (isRepresentable_natCast h) ?_ hmodel
  rw [Nat.abs_cast]
  exact natCast_lt h

/-- The powers of ten up to the greatest one with 53 significant bits are representable. -/
theorem isRepresentable_ten_pow {n : ℕ} (h : n ≤ 22) : IsRepresentable (10 ^ n) := by
  refine ⟨5 ^ n, n, ?_, by omega, ?_⟩
  · rw [abs_of_pos (by positivity)]
    exact (pow_le_pow_right₀ (by norm_num) h).trans_lt (by norm_num)
  · push_cast
    rw [zpow_natCast, ← mul_pow]
    norm_num

/-- They are far below the end of the range. -/
theorem ten_pow_lt {n : ℕ} (h : n ≤ 22) : (10 : ℝ) ^ n < 2 ^ (1024 : ℤ) := by
  calc (10 : ℝ) ^ n ≤ 10 ^ 22 := pow_le_pow_right₀ (by norm_num) h
    _ ≤ 2 ^ (100 : ℤ) := by norm_num
    _ < 2 ^ (1024 : ℤ) := zpow_lt_zpow_right₀ one_lt_two (by norm_num)

/-- Powers of ten in the table are exact floats. -/
theorem hasValue_powersOfTen (e : Fin 23) :
    HasValue Float.exactlyRepresentablePowersOfTen[e] (10 ^ (e : ℕ)) := by
  have hmodel : ∀ e : Fin 23, Float.exactlyRepresentablePowersOfTen[e].toModel =
      Float.Model.pack
        (UnpackedFloat.normalize Format.binary64 (10 ^ (e : ℕ) : ℕ) 0 .positive) := by
    decide +kernel
  have hnearest := isNearest_normalize (10 ^ (e : ℕ) : ℕ) 0 .positive
  rw [zpow_zero, mul_one, Int.cast_natCast, Nat.cast_pow, Nat.cast_ofNat] at hnearest
  have hle : (e : ℕ) ≤ 22 := by omega
  refine hnearest.hasValue_exact (isRepresentable_ten_pow hle) ?_ (hmodel e)
  rw [abs_of_pos (by positivity)]
  exact ten_pow_lt hle

/-! ## Scaled numbers -/

/-- A number that is rounded below the range is not above it. -/
theorem RoundsTo.lt_of_lt {v r : ℝ} (h : RoundsTo v r) (hr : r < 2 ^ (1024 : ℤ)) :
    v < 2 ^ (1024 : ℤ) := by
  by_contra hle
  have hbound := isRepresentable_two_zpow (k := 1024) (by norm_num)
  exact hr.not_ge ((h.noneBetween _ hbound).2 (not_lt.mp hle))

/-- A number of less than half the least positive float is rounded to zero. -/
theorem RoundsTo.eq_zero_of_lt {v r : ℝ} (h : RoundsTo v r) (hv : 0 ≤ v)
    (hlt : v < 2 ^ (-1075 : ℤ)) : r = 0 := by
  have hhalf : (2 : ℝ) ^ (-1074 : ℤ) / 2 = 2 ^ (-1075 : ℤ) := by
    rw [div_eq_mul_inv, ← zpow_sub_one₀ two_ne_zero]
    norm_num
  have hzero : IsNearestOn (-1074) 0 v := by
    refine ⟨⟨le_rfl, ?_, Or.inl rfl⟩, ?_, fun _ => Even.zero⟩
    · rw [abs_of_nonneg hv]
      exact hlt.trans (zpow_lt_zpow_right₀ one_lt_two (by norm_num))
    · rw [Int.cast_zero, zero_mul, sub_zero, abs_of_nonneg hv, hhalf]
      exact hlt.le
  rw [h.unique ⟨-1074, 0, hzero, rfl⟩, Int.cast_zero, zero_mul]

/-- Below zero a power of ten is not above the power of two. -/
theorem ten_zpow_le_two_zpow {e : ℤ} (he : e ≤ 0) : (10 : ℝ) ^ e ≤ 2 ^ e := by
  obtain ⟨n, rfl⟩ : ∃ n : ℕ, e = -n := ⟨e.natAbs, by omega⟩
  rw [zpow_neg, zpow_neg, zpow_natCast, zpow_natCast]
  exact inv_anti₀ (by positivity) (pow_le_pow_left₀ two_pos.le (by norm_num) n)

/-- A number with a large power of ten is beyond the range. -/
theorem two_zpow_le_scaled {m : ℕ} (hm : m ≠ 0) {e : ℤ} (he : 1024 ≤ e) :
    (2 : ℝ) ^ (1024 : ℤ) ≤ m * 10 ^ e := by
  have hone : (1 : ℝ) ≤ m := by exact_mod_cast Nat.pos_of_ne_zero hm
  calc (2 : ℝ) ^ (1024 : ℤ) ≤ 10 ^ (1024 : ℤ) :=
        zpow_le_zpow_left₀ (by norm_num) two_pos.le (by norm_num)
    _ ≤ 10 ^ e := zpow_le_zpow_right₀ (by norm_num) he
    _ ≤ m * 10 ^ e := le_mul_of_one_le_left (by positivity) hone

/-- A number with a small power of ten is less than half the least positive float. -/
theorem scaled_lt_two_zpow {m : ℕ} {e : ℤ} (he : e ≤ 0) (hsmall : m.log2 + e ≤ -1076) :
    (m : ℝ) * 10 ^ e < 2 ^ (-1075 : ℤ) := by
  have hlog : (m : ℝ) < 2 ^ (m.log2 + 1 : ℤ) := by exact_mod_cast Nat.lt_log2_self
  calc (m : ℝ) * 10 ^ e < 2 ^ (m.log2 + 1 : ℤ) * 10 ^ e :=
        mul_lt_mul_of_pos_right hlog (by positivity)
    _ ≤ 2 ^ (m.log2 + 1 : ℤ) * 2 ^ e :=
        mul_le_mul_of_nonneg_left (ten_zpow_le_two_zpow he) (by positivity)
    _ = 2 ^ (m.log2 + 1 + e) := (zpow_add₀ two_ne_zero _ _).symm
    _ ≤ 2 ^ (-1075 : ℤ) := zpow_le_zpow_right₀ one_le_two (by omega)

/-- The product of a number with a natural number is rounded, once the former is long enough. -/
theorem isNearest_mul_shifted {m n : ℕ} (hm : m ≠ 0) (hn : n ≠ 0) (hshifted : 0 < m <<< 53)
    (hpos : 0 < n) :
    IsNearest (m * n) (UnpackedFloat.mul Format.binary64
      (.finite .positive (m <<< 53) (-(53 : ℕ)) hshifted) (.finite .positive n 0 hpos)) := by
  have hexact : (m : ℝ) * n = withSign (.positive * .positive)
      ((m <<< 53 * n : ℕ) * 2 ^ (-((53 : ℕ) : ℤ) + 0)) := by
    change (m : ℝ) * n = (m <<< 53 * n : ℕ) * 2 ^ (-((53 : ℕ) : ℤ) + 0)
    rw [add_zero, zpow_neg, zpow_natCast, Nat.shiftLeft_eq, Nat.cast_mul, Nat.cast_mul,
      Nat.cast_pow, Nat.cast_two]
    field_simp
  rw [hexact]
  refine isNearest_exact ?_ (.positive * .positive)
  have hlog : 53 ≤ (m <<< 53 * n).log2 := by
    rw [Nat.le_log2 (by simp [Nat.shiftLeft_eq, hm, hn]), Nat.shiftLeft_eq]
    exact (Nat.le_mul_of_pos_left _ (Nat.pos_of_ne_zero hm)).trans
      (Nat.le_mul_of_pos_right _ (Nat.pos_of_ne_zero hn))
  rw [targetExponent_eq]
  omega

/-- A number with a power of ten is rounded as a whole unless it is far beyond the range. -/
theorem ofScientific_eq {m : ℕ} {e : ℤ} {r : ℝ} (h : RoundsTo (m * 10 ^ e) r)
    (hr : r < 2 ^ (1024 : ℤ)) :
    IsCanonical (UnpackedFloat.ofScientific Format.binary64 m e) ∧
      value (UnpackedFloat.ofScientific Format.binary64 m e) = r := by
  have hnearest {u : UnpackedFloat} (hu : IsNearest (m * 10 ^ e) u) :
      IsCanonical u ∧ value u = r := ⟨hu.canonical, hu.roundsTo.unique h⟩
  have hzero (hr : r = 0) : IsCanonical (.zero .positive) ∧ value (.zero .positive) = r :=
    ⟨trivial, hr.symm⟩
  unfold UnpackedFloat.ofScientific
  split
  · next hm =>
    rw [hm, Nat.cast_zero, zero_mul] at h
    exact hzero (h.unique roundsTo_zero)
  · next hm =>
    split
    · next hlarge =>
      -- Such a number is not rounded into the range.
      norm_num at hlarge
      exact absurd (h.lt_of_lt hr) (two_zpow_le_scaled hm (by omega)).not_gt
    · split
      · next hsmall =>
        norm_num at hsmall
        exact hzero (h.eq_zero_of_lt (by positivity) (scaled_lt_two_zpow (by omega) (by omega)))
      · have hten (n : ℕ) : (10 : ℕ) ^ n ≠ 0 := by positivity
        split
        · next hnonneg =>
          have hpower : (m : ℝ) * 10 ^ e = m * (10 ^ e.toNat : ℕ) := by
            rw [Nat.cast_pow, Nat.cast_ofNat, ← zpow_natCast, Int.toNat_of_nonneg hnonneg]
          rw [hpower] at hnearest
          exact hnearest (isNearest_mul_shifted hm (hten _) _ _)
        · next hneg =>
          have hpower : (m : ℝ) * 10 ^ e =
              value (.finite .positive m 0 (Nat.pos_of_ne_zero hm)) /
                value (.finite .positive (10 ^ (-e).toNat) 0 (Nat.pos_of_ne_zero (hten _))) := by
            have hexponent : ((-e).toNat : ℤ) = -e := by omega
            simp only [value, withSign, zpow_zero, mul_one]
            rw [Nat.cast_pow, Nat.cast_ofNat, ← zpow_natCast, hexponent, zpow_neg, div_inv_eq_mul]
          rw [hpower] at hnearest
          exact hnearest (isNearest_div_finite _ _ _ _ _ _)

/-- The bound on short numbers with short powers of ten is in range. -/
theorem two_zpow_lt_range : (2 : ℝ) ^ (200 : ℤ) < 2 ^ (1024 : ℤ) :=
  zpow_lt_zpow_right₀ one_lt_two (by norm_num)

/-- A short number is multiplied by a short power of ten with one rounding. -/
theorem hasValue_mul_powersOfTen {m : ℕ} (hm : m < 2 ^ 53) (e : Fin 23) {r : ℝ}
    (h : RoundsTo (m * 10 ^ (e : ℕ)) r) :
    HasValue (m.toUInt64.toFloat * Float.exactlyRepresentablePowersOfTen[e]) r := by
  have hmcast : (m : ℝ) < 2 ^ 53 := by exact_mod_cast hm
  have hle : (e : ℕ) ≤ 22 := by omega
  have hproduct : |(m : ℝ) * 10 ^ (e : ℕ)| ≤ 2 ^ (200 : ℤ) := by
    rw [abs_of_nonneg (by positivity)]
    calc (m : ℝ) * 10 ^ (e : ℕ) ≤ 2 ^ 53 * 10 ^ 22 :=
          mul_le_mul hmcast.le (pow_le_pow_right₀ (by norm_num) hle) (by positivity)
            (by positivity)
      _ ≤ 2 ^ (200 : ℤ) := by norm_num
  obtain ⟨s, hs, hrounds⟩ := (hasValue_toFloat hm).mul (hasValue_powersOfTen e)
    (isRepresentable_two_zpow (by norm_num)) two_zpow_lt_range hproduct
  exact h.unique hrounds ▸ hs

/-- A short number is divided by a short power of ten with one rounding. -/
theorem hasValue_div_powersOfTen {m : ℕ} (hm : m < 2 ^ 53) (e : Fin 23) {r : ℝ}
    (h : RoundsTo (m / 10 ^ (e : ℕ)) r) :
    HasValue (m.toUInt64.toFloat / Float.exactlyRepresentablePowersOfTen[e]) r := by
  have hmcast : (m : ℝ) < 2 ^ 53 := by exact_mod_cast hm
  have hquotient : |(m : ℝ) / 10 ^ (e : ℕ)| ≤ 2 ^ (200 : ℤ) := by
    rw [abs_of_nonneg (by positivity)]
    calc (m : ℝ) / 10 ^ (e : ℕ) ≤ m :=
          div_le_self (Nat.cast_nonneg m) (one_le_pow₀ (by norm_num))
      _ ≤ 2 ^ (200 : ℤ) := hmcast.le.trans (by norm_num)
  obtain ⟨s, hs, hrounds⟩ := (hasValue_toFloat hm).div (hasValue_powersOfTen e) (by positivity)
    (isRepresentable_two_zpow (by norm_num)) two_zpow_lt_range hquotient
  exact h.unique hrounds ▸ hs

/-- A number with a power of ten is read as the float that it is rounded to. -/
theorem hasValue_ofScientific {m e : ℕ} {negative : Bool} {r : ℝ}
    (h : RoundsTo (m * 10 ^ (if negative then -e else e : ℤ)) r) (hr : r < 2 ^ (1024 : ℤ)) :
    HasValue (Float.ofScientific m negative e) r := by
  unfold Float.ofScientific
  split
  · next hshort =>
    -- Both floats are exact, so that one operation rounds the exact number.
    obtain ⟨hm, he⟩ := hshort
    cases negative with
    | true =>
      rw [if_pos rfl, zpow_neg, zpow_natCast, ← div_eq_mul_inv] at h
      exact hasValue_div_powersOfTen hm ⟨e, by omega⟩ h
    | false =>
      rw [if_neg Bool.false_ne_true, zpow_natCast] at h
      exact hasValue_mul_powersOfTen hm ⟨e, by omega⟩ h
  · have hexponent : (if negative = true then Int.negOfNat e else Int.ofNat e) =
        (if negative then -e else e : ℤ) := by
      cases negative
      · rfl
      · exact Int.negOfNat_eq
    obtain ⟨hcanonical, hvalue⟩ := ofScientific_eq h hr
    have hnonneg : 0 ≤ r :=
      (h.noneBetween 0 ⟨0, 0, by norm_num, by norm_num, by simp⟩).2 (by positivity)
    dsimp only
    rw [hexponent]
    have hunpack := unpack_of_isCanonical hcanonical (by rwa [hvalue, abs_of_nonneg hnonneg])
      (z := ⟨Float.Model.ofScientific m (if negative then -e else e)⟩) rfl
    exact ⟨by rw [hunpack]; exact hcanonical, by rw [hunpack, hvalue]⟩

/-! ## Decimals -/

/-- The coefficient of a decimal has as many digits as its length says. -/
theorem coefficient_lt (d : Decimal) : d.coefficient < 10 ^ d.digits.length :=
  (Nat.length_toDigits_le_iff (by decide) (List.length_pos_iff.mpr Nat.toDigits_ne_nil)).mp le_rfl

/-- A coefficient other than zero has no leading zero. -/
theorem le_coefficient {d : Decimal} (h : d.coefficient ≠ 0) :
    10 ^ (d.digits.length - 1) ≤ d.coefficient := by
  by_contra hlt
  rw [not_le] at hlt
  rcases Nat.eq_zero_or_pos (d.digits.length - 1) with hzero | hpos
  · rw [hzero, pow_zero] at hlt
    omega
  · have := (Nat.length_toDigits_le_iff (b := 10) (by decide) hpos).mpr hlt
    change d.digits.length ≤ _ at this
    omega

/-- A decimal whose digits all stand far behind the point is less than half the least positive
float. -/
theorem decimal_lt_two_zpow {d : Decimal} (h : d.digits.length + d.exponent ≤ -331) :
    (d.coefficient : ℝ) * 10 ^ d.exponent < 2 ^ (-1075 : ℤ) := by
  have hcast : (d.coefficient : ℝ) < 10 ^ (d.digits.length : ℤ) := by
    exact_mod_cast coefficient_lt d
  have hleast : (10 : ℝ) ^ (-331 : ℤ) < 2 ^ (-1075 : ℤ) := by
    have hpowers : 2 ^ 1075 < 10 ^ 331 := by decide +kernel
    rw [zpow_neg, zpow_neg]
    exact inv_strictAnti₀ (by positivity) (by exact_mod_cast hpowers)
  calc (d.coefficient : ℝ) * 10 ^ d.exponent
      < 10 ^ (d.digits.length : ℤ) * 10 ^ d.exponent :=
        mul_lt_mul_of_pos_right hcast (by positivity)
    _ = 10 ^ (d.digits.length + d.exponent) := (zpow_add₀ (by norm_num) _ _).symm
    _ ≤ 10 ^ (-331 : ℤ) := zpow_le_zpow_right₀ (by norm_num) h
    _ < 2 ^ (-1075 : ℤ) := hleast

/-- A decimal with many digits before the point is beyond the range. -/
theorem two_zpow_le_decimal {d : Decimal} (hne : d.coefficient ≠ 0)
    (h : 310 < (d.digits.length : ℤ) + d.exponent) :
    (2 : ℝ) ^ (1024 : ℤ) ≤ d.coefficient * 10 ^ d.exponent := by
  have hcast : (10 : ℝ) ^ ((d.digits.length - 1 : ℕ) : ℤ) ≤ d.coefficient := by
    exact_mod_cast le_coefficient hne
  have hgreatest : (2 : ℝ) ^ (1024 : ℤ) ≤ 10 ^ (310 : ℤ) := by
    have hpowers : 2 ^ 1024 ≤ 10 ^ 310 := by decide +kernel
    exact_mod_cast hpowers
  calc (2 : ℝ) ^ (1024 : ℤ) ≤ 10 ^ (310 : ℤ) := hgreatest
    _ ≤ 10 ^ ((d.digits.length - 1 : ℕ) + d.exponent) :=
        zpow_le_zpow_right₀ (by norm_num) (by omega)
    _ = 10 ^ ((d.digits.length - 1 : ℕ) : ℤ) * 10 ^ d.exponent := zpow_add₀ (by norm_num) _ _
    _ ≤ d.coefficient * 10 ^ d.exponent := mul_le_mul_of_nonneg_right hcast (by positivity)

/-- A decimal is read as the float that its exact value is rounded to. -/
theorem hasValue_ofDecimal {d : Decimal} {r : ℝ} (h : RoundsTo (d.value : ℝ) r)
    (hr : r < 2 ^ (1024 : ℤ)) : HasValue (ofDecimal d) r := by
  have hvalue : ((d.value : ℚ) : ℝ) = d.coefficient * 10 ^ d.exponent := by
    rw [Decimal.value]
    push_cast
    rfl
  rw [hvalue] at h
  unfold ofDecimal
  dsimp only
  split
  · next hsmall =>
    have hzero : r = 0 := by
      rcases hsmall with hzero | hshort
      · rw [hzero, Nat.cast_zero, zero_mul] at h
        exact h.unique roundsTo_zero
      · exact h.eq_zero_of_lt (by positivity) (decimal_lt_two_zpow (by omega))
    exact hzero ▸ hasValue_zero
  · next hnotSmall =>
    split
    · next hlong =>
      have hbeyond := two_zpow_le_decimal (fun hzero => hnotSmall (Or.inl hzero)) hlong
      exact absurd (h.lt_of_lt hr) hbeyond.not_gt
    · refine hasValue_ofScientific ?_ hr
      have hexponent : (if decide (d.exponent < 0) = true then -(d.exponent.natAbs : ℤ)
          else (d.exponent.natAbs : ℤ)) = d.exponent := by
        simp only [decide_eq_true_eq]
        omega
      rwa [hexponent]

end ColorWords.Binary64
