import ColorWords.Proofs.Scalar.Binary64Fields

/-!
# What rounding loses of sums and products

What rounding loses of a sum of floats is a float, which two more float operations compute. What
rounding loses of a product is a float as well, unless it is too small. The significands of the
product and of the rounded product differ so little that the last 64 bits of both tell the
difference, which is then scaled to the size of the product. All of this is exact.
-/

namespace ColorWords.Binary64

open Float.Model Float.Model.UnpackedFloat

/-! ## Rounding between two numbers -/

/-- Every point of a grid is rounded to some representable number. -/
theorem exists_roundsTo {v : ℝ} {k : ℤ} (hv : v ∈ grid k) :
    ∃ r, RoundsTo v r ∧ IsRepresentable r := by
  obtain ⟨n, rfl⟩ := mem_grid.mp hv
  have hnearest := isNearest_normalize n k .positive
  exact ⟨_, hnearest.roundsTo, isRepresentable_value hnearest.canonical⟩

namespace RoundsTo

variable {v w r s : ℝ}

/-- Rounding keeps the order. -/
theorem mono (hv : RoundsTo v r) (hw : RoundsTo w s) (hr : IsRepresentable r)
    (hs : IsRepresentable s) (h : v ≤ w) : r ≤ s := by
  by_contra hlt
  have hbelow : s < v := not_le.mp fun hle => hlt ((hv.noneBetween s hs).1 hle)
  have habove : w < r := not_le.mp fun hle => hlt ((hw.noneBetween r hr).2 hle)
  -- Both numbers are nearer to the other result, unless they are the same one in the middle.
  have hleft := hv.nearest hs
  have hright := hw.nearest hr
  rw [abs_of_neg (by linarith), abs_of_pos (by linarith)] at hleft
  rw [abs_of_pos (by linarith), abs_of_neg (by linarith)] at hright
  obtain rfl : v = w := by linarith
  exact hlt (hv.unique hw).le

/-- What is between two numbers with the same rounded number is rounded to this as well. -/
theorem of_between {low high : ℝ} {k : ℤ} (hlow : RoundsTo low r) (hhigh : RoundsTo high r)
    (hr : IsRepresentable r) (hv : v ∈ grid k) (hle : low ≤ v) (hge : v ≤ high) : RoundsTo v r := by
  obtain ⟨s, hs, hrepresentable⟩ := exists_roundsTo hv
  have hsame : s = r := le_antisymm (hs.mono hhigh hrepresentable hr hge)
    (hlow.mono hs hr hrepresentable hle)
  exact hsame ▸ hs

/-- Rounding changes a number by no more than the rounding unit times its magnitude. -/
theorem error_le_abs (h : RoundsTo v r) (hv : v ∈ grid (-1074)) :
    |v - r| ≤ |v| * 2 ^ (-53 : ℤ) := by
  rcases h.eq_or_coarser hv with rfl | ⟨t, hlt, -, hcoarse, -, hle⟩
  · rw [sub_self, abs_zero]
    positivity
  · have hunit : (2 : ℝ) ^ t / 2 = 2 ^ (52 + t) * 2 ^ (-53 : ℤ) := by
      rw [← zpow_add₀ two_ne_zero, div_eq_mul_inv, ← zpow_sub_one₀ two_ne_zero]
      congr 1
      ring
    calc |v - r| ≤ 2 ^ t / 2 := hle
      _ = 2 ^ (52 + t) * 2 ^ (-53 : ℤ) := hunit
      _ ≤ |v| * 2 ^ (-53 : ℤ) :=
        mul_le_mul_of_nonneg_right (hcoarse.resolve_left (by omega)) (zpow_pos two_pos _).le

end RoundsTo

/-! ## What rounding loses of a sum -/

variable {x y z : Float} {p q r : ℝ}

/-- The float without its sign stands for the absolute value. -/
theorem HasValue.abs (hx : HasValue x p) : HasValue x.abs |p| := by
  obtain ⟨hcanonical, rfl⟩ := hx
  rw [HasValue, unpack_abs]
  obtain ⟨s, hunpack⟩ | ⟨s, m, e, hm, hunpack⟩ := hcanonical.zero_or_finite
  · rw [hunpack, value_zero, abs_zero]
    exact ⟨trivial, rfl⟩
  · rw [hunpack] at hcanonical ⊢
    refine ⟨hcanonical, ?_⟩
    rw [value, abs_withSign, abs_of_nonneg (by positivity)]
    rfl

/-- What rounding loses of a sum is computed without error. -/
theorem HasValue.lostSum (hx : HasValue x p) (hy : HasValue y q) (hz : HasValue z r)
    (hrounds : RoundsTo (p + q) r) (hrange : |p| + |q| ≤ 2 ^ (1022 : ℤ)) :
    HasValue (lostSum x y z) (p + q - r) := by
  unfold Binary64.lostSum
  split
  · next hlt =>
    rw [add_comm p q] at hrounds ⊢
    exact hy.lost hx hz hrounds ((hx.abs.lt_iff hy.abs).mp hlt).le (by linarith)
  · next hge =>
    exact hx.lost hy hz hrounds (not_lt.mp fun hlt => hge ((hx.abs.lt_iff hy.abs).mpr hlt)) hrange

/-! ## What rounding loses of a product -/

/-- The word holds the exponent field. -/
theorem toNat_exponentWord (x : Float) : (exponentWord x).toNat = exponentField x := by
  simp [exponentWord, exponentField, bits, exponentUnit, Nat.shiftRight_eq_div_pow,
    Nat.and_two_pow_sub_one_eq_mod _ 11]

/-- The word holds the significand of a float that is not subnormal. -/
theorem toNat_significandWord (h : exponentField x ≠ 0) :
    (significandWord x).toNat = significand x := by
  have hlow : x.toBits.toNat &&& 0xfffffffffffff = fractionField x :=
    Nat.and_two_pow_sub_one_eq_mod _ 52
  have hlt : fractionField x < 2 ^ 52 := Nat.mod_lt _ (by decide)
  have hbit := Nat.two_pow_add_eq_or_of_lt hlt 1
  rw [significandWord, UInt64.toNat_or, UInt64.toNat_and, significand, if_neg h]
  change x.toBits.toNat &&& 0xfffffffffffff ||| 2 ^ 52 = fractionField x + 2 ^ 52
  rw [hlow, Nat.or_comm]
  rw [mul_one] at hbit
  rw [← hbit, Nat.add_comm]

/-- The float is not subnormal and stands for the number, which is its significand at this
exponent. -/
structure IsNormalAt (e : ℤ) (x : Float) (p : ℝ) : Prop where
  hasValue : HasValue x p
  exponent_eq : (exponentField x : ℤ) = e + 1075
  ne_zero : exponentField x ≠ 0
  abs_eq : |p| = significand x * 2 ^ e

/-- A finite float that is not subnormal has its exponent field as the exponent. -/
theorem HasValue.isNormalAt (hx : HasValue x p) (h : exponentField x ≠ 0) :
    IsNormalAt (exponentField x - 1075) x p where
  hasValue := hx
  exponent_eq := by ring
  ne_zero := h
  abs_eq := by
    have hexponent : (scale x : ℤ) - 1074 = exponentField x - 1075 := by
      unfold scale
      omega
    rw [hx.abs_eq, magnitudeOf, hexponent]

/-- A float with the magnitude of a power of two that subnormal floats do not reach is not
subnormal. -/
theorem HasValue.exponentField_ne_zero (hx : HasValue x p) (h : 2 ^ (-1022 : ℤ) ≤ |p|) :
    exponentField x ≠ 0 := by
  intro hzero
  have hfraction : fractionField x < 2 ^ 52 := Nat.mod_lt _ (by decide)
  have hcast : (fractionField x : ℝ) < 2 ^ (52 : ℤ) := by exact_mod_cast hfraction
  rw [hx.abs_eq, magnitudeOf, scale, hzero, significand, if_pos hzero] at h
  have hlt : (fractionField x : ℝ) * 2 ^ (-1074 : ℤ) < 2 ^ (52 : ℤ) * 2 ^ (-1074 : ℤ) :=
    mul_lt_mul_of_pos_right hcast (zpow_pos two_pos _)
  rw [← zpow_add₀ two_ne_zero] at hlt
  exact absurd h hlt.not_ge

/-- A word of at most 53 bits is an exact float. -/
theorem hasValue_wordToFloat {w : UInt64} (h : w.toNat < 2 ^ 53) : HasValue w.toFloat w.toNat := by
  have hword : w.toNat.toUInt64 = w := UInt64.ofNat_toNat
  have hvalue := hasValue_toFloat h
  rwa [hword] at hvalue

/-- A small difference of natural numbers is told by the last 64 bits of both. -/
theorem sub_eq_of_words {v w : UInt64} {m n : ℕ} (hv : v.toNat = m % 2 ^ 64)
    (hw : w.toNat = n % 2 ^ 64) (h : |(m : ℤ) - n| < 2 ^ 53) :
    (v - w < 0x8000000000000000 ∧ (v - w).toNat < 2 ^ 53 ∧ (m : ℤ) - n = (v - w).toNat) ∨
      (¬ v - w < 0x8000000000000000 ∧ (0 - (v - w)).toNat < 2 ^ 53 ∧
        (m : ℤ) - n = -(0 - (v - w)).toNat) := by
  have hdifference := UInt64.toNat_sub v w
  have hnegated := UInt64.toNat_sub 0 (v - w)
  have hlt : v - w < 0x8000000000000000 ↔ (v - w).toNat < 2 ^ 63 := UInt64.lt_iff_toNat_lt
  rw [abs_lt] at h
  rw [hlt]
  rw [hv, hw] at hdifference
  rw [UInt64.toNat_zero] at hnegated
  omega

/-- A number whose magnitude is a point of a grid with 53 bits is representable. -/
theorem isRepresentable_of_abs {v : ℝ} {n : ℕ} {k : ℤ} (hn : n < 2 ^ 53) (hk : -1074 ≤ k)
    (h : |v| = n * 2 ^ k) : IsRepresentable v := by
  have hpositive : IsRepresentable (n * 2 ^ k) :=
    ⟨n, k, by rw [Nat.abs_cast]; exact_mod_cast hn, hk, by push_cast; rfl⟩
  rcases eq_or_eq_neg_of_abs_eq h with rfl | rfl
  · exact hpositive
  · exact hpositive.neg

/-- A representable product is exact. -/
theorem HasValue.mul_exact (hx : HasValue x p) (hy : HasValue y q) (h : IsRepresentable (p * q))
    (hrange : |p * q| ≤ 2 ^ (1023 : ℤ)) : HasValue (x * y) (p * q) := by
  obtain ⟨r, hr, hrounds⟩ := hx.mul hy (isRepresentable_two_zpow (by norm_num))
    (zpow_lt_zpow_right₀ one_lt_two (by norm_num)) hrange
  exact hrounds.eq_of_isRepresentable h ▸ hr

/-- A representable quotient is exact. -/
theorem HasValue.div_exact (hx : HasValue x p) (hy : HasValue y q) (hne : q ≠ 0)
    (h : IsRepresentable (p / q)) (hrange : |p / q| ≤ 2 ^ (1023 : ℤ)) :
    HasValue (x / y) (p / q) := by
  obtain ⟨r, hr, hrounds⟩ := hx.div hy hne (isRepresentable_two_zpow (by norm_num))
    (zpow_lt_zpow_right₀ one_lt_two (by norm_num)) hrange
  exact hrounds.eq_of_isRepresentable h ▸ hr

/-- Rounding keeps the sign, also that of a magnitude. -/
theorem RoundsTo.abs {v r : ℝ} (h : RoundsTo v r) : RoundsTo |v| |r| ∧ 0 ≤ v * r := by
  have hzero := h.noneBetween 0 (hasValue_zero.isRepresentable)
  rcases le_total 0 v with hv | hv
  · have hr := hzero.2 hv
    rw [abs_of_nonneg hv, abs_of_nonneg hr]
    exact ⟨h, mul_nonneg hv hr⟩
  · have hr := hzero.1 hv
    rw [abs_of_nonpos hv, abs_of_nonpos hr]
    exact ⟨h.neg, mul_nonneg_of_nonpos_of_nonpos hv hr⟩

namespace IsNormalAt

variable {i j k : ℤ}

/-- The significand has all of its bits. -/
theorem le_significand (h : IsNormalAt i x p) : 2 ^ 52 ≤ significand x := by
  rw [significand, if_neg h.ne_zero]
  exact Nat.le_add_left _ _

/-- The significand is not zero. -/
theorem significand_pos (h : IsNormalAt i x p) : (0 : ℝ) < significand x := by
  exact_mod_cast lt_of_lt_of_le (by norm_num) h.le_significand

/-- The exponent determines the magnitude up to a factor of two. -/
theorem le_abs (h : IsNormalAt i x p) : 2 ^ (52 + i) ≤ |p| := by
  have hcast : (2 : ℝ) ^ (52 : ℤ) ≤ significand x := by exact_mod_cast h.le_significand
  rw [h.abs_eq, zpow_add₀ two_ne_zero]
  exact mul_le_mul_of_nonneg_right hcast (zpow_pos two_pos i).le

/-- The exponent bounds the magnitude. -/
theorem abs_lt (h : IsNormalAt i x p) : |p| < 2 ^ (53 + i) := by
  have hcast : (significand x : ℝ) < 2 ^ (53 : ℤ) := by exact_mod_cast significand_lt_two_pow x
  rw [h.abs_eq, zpow_add₀ two_ne_zero]
  exact mul_lt_mul_of_pos_right hcast (zpow_pos two_pos i)

/-- Without its significand a number is a power of two with its sign. -/
theorem abs_div_significand (h : IsNormalAt i x p) : |p / significand x| = 2 ^ i := by
  rw [abs_div, h.abs_eq, abs_of_pos h.significand_pos,
    mul_div_cancel_left₀ _ h.significand_pos.ne']

/-- The word of the significand is an exact float. -/
theorem hasValue_significand (h : IsNormalAt i x p) :
    HasValue (significandWord x).toFloat (significand x) := by
  have hword := toNat_significandWord h.ne_zero
  rw [← hword]
  exact hasValue_wordToFloat (hword ▸ significand_lt_two_pow x)

/-- Dividing a float by its significand is exact. -/
theorem hasValue_div_significand (h : IsNormalAt i x p) :
    HasValue (x / (significandWord x).toFloat) (p / significand x) := by
  have hexponent := h.exponent_eq
  have hnormal := h.ne_zero
  have hfield : exponentField x < 2048 := Nat.mod_lt _ (by decide)
  have habs := h.abs_div_significand
  refine h.hasValue.div_exact h.hasValue_significand h.significand_pos.ne' ?_ ?_
  · exact @isRepresentable_of_abs _ 1 i (by norm_num) (by omega) (by rw [habs]; norm_num)
  · rw [habs]
    exact zpow_le_zpow_right₀ one_le_two (by omega)

end IsNormalAt

/-- The power of two that the product of the significands is multiplied by, with the sign of the
product. -/
noncomputable def productUnit (x y : Float) (p q : ℝ) : ℝ :=
  p / significand x * (q / significand y)

namespace IsNormalAt

section Product

variable {i j k : ℤ} (hx : IsNormalAt i x p) (hy : IsNormalAt j y q) (hz : IsNormalAt k z r)
  (hrounds : RoundsTo (p * q) r) (hlow : -1074 ≤ i + j) (hhigh : i + j ≤ 917)

include hx hy

/-- The unit is a power of two. -/
theorem abs_productUnit : |productUnit x y p q| = 2 ^ (i + j) := by
  rw [productUnit, abs_mul, hx.abs_div_significand, hy.abs_div_significand,
    ← zpow_add₀ two_ne_zero]

/-- The product is that of the significands in units. -/
theorem mul_eq : p * q = productUnit x y p q * (significand x * significand y : ℕ) := by
  have hxpos := hx.significand_pos
  have hypos := hy.significand_pos
  rw [productUnit]
  push_cast
  field_simp

/-- The magnitude of a product is at most a factor of four above the least one. -/
theorem abs_mul_bounds : 2 ^ (104 + (i + j)) ≤ |p * q| ∧ |p * q| < 2 ^ (106 + (i + j)) := by
  have hleast : (104 : ℤ) + (i + j) = 52 + i + (52 + j) := by ring
  have hgreatest : (106 : ℤ) + (i + j) = 53 + i + (53 + j) := by ring
  rw [abs_mul, hleast, hgreatest, zpow_add₀ two_ne_zero, zpow_add₀ two_ne_zero (53 + i)]
  exact ⟨mul_le_mul hx.le_abs hy.le_abs (zpow_pos two_pos _).le (abs_nonneg p),
    mul_lt_mul'' hx.abs_lt hy.abs_lt (abs_nonneg p) (abs_nonneg q)⟩

include hlow hhigh

/-- Multiplying the unit by an integer of 53 bits is exact. -/
theorem hasValue_unit_mul {w : UInt64} (hw : w.toNat < 2 ^ 53) :
    HasValue (x / (significandWord x).toFloat * (y / (significandWord y).toFloat) * w.toFloat)
      (productUnit x y p q * w.toNat) := by
  have habs := hx.abs_productUnit hy
  have hunit : HasValue (x / (significandWord x).toFloat * (y / (significandWord y).toFloat))
      (productUnit x y p q) := by
    refine hx.hasValue_div_significand.mul_exact hy.hasValue_div_significand ?_ ?_
    · exact @isRepresentable_of_abs _ 1 (i + j) (by norm_num) hlow (habs.trans (by norm_num))
    · exact habs.trans_le (zpow_le_zpow_right₀ one_le_two (by omega))
  have hfits : |productUnit x y p q * w.toNat| = w.toNat * 2 ^ (i + j) := by
    rw [abs_mul, habs, Nat.abs_cast, mul_comm]
  refine hunit.mul_exact (hasValue_wordToFloat hw) (isRepresentable_of_abs hw hlow hfits) ?_
  have hcast : (w.toNat : ℝ) ≤ 2 ^ (53 : ℤ) := by exact_mod_cast hw.le
  rw [hfits]
  calc (w.toNat : ℝ) * 2 ^ (i + j) ≤ 2 ^ (53 : ℤ) * 2 ^ (i + j) :=
        mul_le_mul_of_nonneg_right hcast (zpow_pos two_pos _).le
    _ = 2 ^ (53 + (i + j)) := (zpow_add₀ two_ne_zero _ _).symm
    _ ≤ 2 ^ (1023 : ℤ) := zpow_le_zpow_right₀ one_le_two (by omega)

omit hhigh
include hz hrounds

/-- The exponent of the rounded product leaves 52 to 54 places. -/
theorem places_bounds : 52 ≤ k - (i + j) ∧ k - (i + j) ≤ 54 := by
  obtain ⟨hleast, hgreatest⟩ := hx.abs_mul_bounds hy
  have hbetween := hrounds.abs.1.noneBetween
  have hlower := (hbetween _ (isRepresentable_two_zpow (by omega))).2 hleast
  have hupper := (hbetween _ (isRepresentable_two_zpow (by omega))).1 hgreatest.le
  have hfirst := exponent_lt_of_between hlower hz.abs_lt
  have hlast := (zpow_le_zpow_iff_right₀ one_lt_two).mp (hz.le_abs.trans hupper)
  omega

/-- The rounded product is its significand, shifted by these places, in units. -/
theorem rounded_eq :
    r = productUnit x y p q * (significand z <<< (k - (i + j)).toNat : ℕ) := by
  have hplaces := (hx.places_bounds hy hz hrounds hlow).1
  have hunit := hx.abs_productUnit hy
  have hshifted : (0 : ℝ) < (significand z <<< (k - (i + j)).toNat : ℕ) := by
    rw [Nat.shiftLeft_eq]
    push_cast
    exact mul_pos hz.significand_pos (by positivity)
  have hmagnitude : |r| = |productUnit x y p q * (significand z <<< (k - (i + j)).toNat : ℕ)| := by
    rw [abs_mul, hunit, abs_of_pos hshifted, Nat.shiftLeft_eq, hz.abs_eq]
    push_cast
    rw [← zpow_natCast, Int.toNat_of_nonneg (by omega), mul_left_comm, ← zpow_add₀ two_ne_zero,
      add_sub_cancel]
  refine (abs_eq_abs.mp hmagnitude).resolve_right fun hopposite => ?_
  -- Rounding keeps the sign, so the two are not on different sides of zero.
  have hsame := hrounds.abs.2
  have hsquare : 0 < productUnit x y p q * productUnit x y p q := mul_self_pos.mpr fun hzero => by
    rw [hzero, abs_zero] at hunit
    exact (zpow_pos two_pos (i + j)).ne hunit
  have hfactors : (0 : ℝ) < (significand x * significand y : ℕ) := by
    push_cast
    exact mul_pos hx.significand_pos hy.significand_pos
  rw [hx.mul_eq hy, hopposite] at hsame
  have hpos := mul_pos hsquare (mul_pos hfactors hshifted)
  linarith

/-- What rounding loses is an integer in units. -/
theorem lost_eq :
    p * q - r = productUnit x y p q * (((significand x * significand y : ℕ) : ℤ) -
      (significand z <<< (k - (i + j)).toNat : ℕ) : ℤ) := by
  rw [hx.mul_eq hy, Int.cast_sub, Int.cast_natCast, Int.cast_natCast, mul_sub,
    ← hx.rounded_eq hy hz hrounds hlow]

/-- This integer has less than 53 bits. -/
theorem abs_lost_lt :
    |((significand x * significand y : ℕ) : ℤ) -
      (significand z <<< (k - (i + j)).toNat : ℕ)| < 2 ^ 53 := by
  have herror := hrounds.error_le_of_lt (by omega) (hx.abs_mul_bounds hy).2
  rw [hx.lost_eq hy hz hrounds hlow, abs_mul, hx.abs_productUnit hy,
    show (106 : ℤ) + (i + j) - 54 = i + j + 52 by ring, zpow_add₀ two_ne_zero (i + j),
    mul_le_mul_iff_of_pos_left (zpow_pos two_pos _)] at herror
  have hcast : |((significand x * significand y : ℕ) : ℤ) -
      (significand z <<< (k - (i + j)).toNat : ℕ)| ≤ 2 ^ 52 := by exact_mod_cast herror
  omega

/-- The shifted word holds the last bits of the shifted significand. -/
theorem toNat_shifted :
    (significandWord z <<< (exponentWord z + 1075 - (exponentWord x + exponentWord y))).toNat =
      significand z <<< (k - (i + j)).toNat % 2 ^ 64 := by
  have hplaces := hx.places_bounds hy hz hrounds hlow
  have hxe := hx.exponent_eq
  have hye := hy.exponent_eq
  have hze := hz.exponent_eq
  have hword : (exponentWord z + 1075 - (exponentWord x + exponentWord y)).toNat =
      (k - (i + j)).toNat := by
    rw [UInt64.toNat_sub, UInt64.toNat_add, UInt64.toNat_add, toNat_exponentWord,
      toNat_exponentWord, toNat_exponentWord]
    change (2 ^ 64 - (exponentField x + exponentField y) % 2 ^ 64 +
      (exponentField z + 1075) % 2 ^ 64) % 2 ^ 64 = _
    omega
  have hshort : (k - (i + j)).toNat % 64 = (k - (i + j)).toNat := Nat.mod_eq_of_lt (by omega)
  rw [UInt64.toNat_shiftLeft, hword, hshort, toNat_significandWord hz.ne_zero]

include hhigh

/-- What rounding loses of a product is computed without error. -/
theorem lostProduct : HasValue (lostProduct x y z) (p * q - r) := by
  have hleft : (significandWord x * significandWord y).toNat =
      significand x * significand y % 2 ^ 64 := by
    rw [UInt64.toNat_mul, toNat_significandWord hx.ne_zero, toNat_significandWord hy.ne_zero]
  have hright := hx.toNat_shifted hy hz hrounds hlow
  unfold Binary64.lostProduct
  dsimp only
  rw [hx.lost_eq hy hz hrounds hlow]
  obtain ⟨hpos, hlt, hequal⟩ | ⟨hneg, hlt, hequal⟩ :=
    sub_eq_of_words hleft hright (hx.abs_lost_lt hy hz hrounds hlow)
  · rw [if_pos hpos, hequal, Int.cast_natCast]
    exact hx.hasValue_unit_mul hy hlow hhigh hlt
  · rw [if_neg hneg, hequal, Int.cast_neg, Int.cast_natCast, mul_neg]
    exact (hx.hasValue_unit_mul hy hlow hhigh hlt).neg

end Product

end IsNormalAt

end ColorWords.Binary64
