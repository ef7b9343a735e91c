import ColorWords.Proofs.Scalar.Binary64Nearest
import ColorWords.Proofs.Scalar.Binary64Value

/-!
# The results of float arithmetic

Each operation on finite floats computes the exact result as a significand and an exponent and
rounds it. The significand has enough bits, so the float that results compares with every finite
float as the exact result does, up to equality.
-/

namespace ColorWords.Binary64

open Float.Model Float.Model.UnpackedFloat

/-! ## Rounding exact numbers -/

/-- A significand can be widened to any lower exponent. -/
theorem decreaseExponent_snd (m : ℕ) {e target : ℤ} (h : target ≤ e) :
    (UnpackedFloat.decreaseExponent m e target).2 = target := by
  simp only [UnpackedFloat.decreaseExponent]
  omega

/-- Widening a significand does not change the number. -/
theorem decreaseExponent_scaled (m : ℕ) (e target : ℤ) :
    ((decreaseExponent m e target).1 : ℝ) * 2 ^ (decreaseExponent m e target).2 = m * 2 ^ e := by
  simp only [decreaseExponent, Nat.shiftLeft_eq]
  push_cast
  rw [mul_assoc, ← zpow_natCast, ← zpow_add₀ two_ne_zero]
  congr 2
  omega

/-- Shifting to the left adds bits. -/
theorem log2_shiftLeft {m : ℕ} (hm : m ≠ 0) (n : ℕ) : (m <<< n).log2 = m.log2 + n := by
  induction n with
  | zero => simp
  | succ n ih =>
    have hne : m <<< n ≠ 0 := by simp [Nat.shiftLeft_eq, hm]
    rw [Nat.shiftLeft_succ, Nat.log2_two_mul hne, ih, add_assoc]

/-- Widening a significand does not change the exponent of the format. -/
theorem targetExponent_decreaseExponent {m : ℕ} (hm : m ≠ 0) (e target : ℤ) :
    Format.binary64.targetExponent
        (totalExponent (decreaseExponent m e target).1 (decreaseExponent m e target).2) =
      Format.binary64.targetExponent (totalExponent m e) := by
  rw [targetExponent_eq, targetExponent_eq]
  simp only [decreaseExponent, log2_shiftLeft hm]
  push_cast
  congr 1
  ring

/-- A nonzero number is rounded. -/
theorem isNearest_round {m : ℕ} (hm : m ≠ 0) (e : ℤ) (sign : Sign) :
    IsNearest (withSign sign (m * 2 ^ e)) (UnpackedFloat.round Format.binary64 sign m e) := by
  unfold UnpackedFloat.round
  dsimp only
  rw [← decreaseExponent_scaled m e (Format.binary64.targetExponent (totalExponent m e))]
  refine isNearest_exact ?_ sign
  rw [targetExponent_decreaseExponent hm]
  simp only [decreaseExponent]
  omega

/-- Zero is rounded. -/
theorem isNearest_zero (sign : Sign) : IsNearest 0 (.zero sign) :=
  isNearest_value (u := .zero sign) trivial

/-- A signed number is rounded. -/
theorem isNearest_normalize (m : ℤ) (e : ℤ) (zeroSign : Sign) :
    IsNearest (m * 2 ^ e) (UnpackedFloat.normalize Format.binary64 m e zeroSign) := by
  unfold UnpackedFloat.normalize
  split
  · next hneg =>
    rw [Int.compare_eq_lt] at hneg
    have hcast : (m : ℝ) * 2 ^ e = withSign .negative ((-m).toNat * 2 ^ e) := by
      have hm : (m : ℝ) = -((-m).toNat : ℤ) := by
        rw [Int.toNat_of_nonneg (by omega)]
        push_cast
        ring
      rw [hm, withSign]
      push_cast
      ring
    rw [hcast]
    exact isNearest_round (by omega) e .negative
  · next hzero =>
    obtain rfl := Int.compare_eq_eq.mp hzero
    rw [Int.cast_zero, zero_mul]
    exact isNearest_zero zeroSign
  · next hpos =>
    rw [Int.compare_eq_gt] at hpos
    have hcast : (m : ℝ) = (m.toNat : ℕ) := by
      have hm : m = (m.toNat : ℤ) := by omega
      exact_mod_cast congrArg (Int.cast : ℤ → ℝ) hm
    rw [hcast]
    exact isNearest_round (by omega) e .positive

/-! ## Operations -/

/-- The sign of an integer is that of the number. -/
theorem cast_apply (sign : Sign) (n : ℕ) : ((sign.apply n : ℤ) : ℝ) = withSign sign n := by
  cases sign
  · change ((-(n : ℤ) : ℤ) : ℝ) = -(n : ℝ)
    push_cast
    rfl
  · rfl

/-- The sign of a product is that of its first factor if the second one has none. -/
theorem withSign_mul (sign : Sign) (x y : ℝ) : withSign sign (x * y) = withSign sign x * y := by
  cases sign
  · exact (neg_mul x y).symm
  · rfl

/-- Signs multiply as numbers do. -/
theorem withSign_mul_withSign (s s' : Sign) (x y : ℝ) :
    withSign s x * withSign s' y = withSign (s * s') (x * y) := by
  cases s <;> cases s'
  · exact neg_mul_neg x y
  · exact neg_mul x y
  · exact mul_neg x y
  · rfl

/-- The sum of finite floats is the sum of their significands, once both have the same exponent. A
sum of zero is positive. -/
theorem add_finite (s s' : Sign) (m n : ℕ) (e k : ℤ) (hm : 0 < m) (hn : 0 < n) :
    ∃ (total : ℤ) (exponent : ℤ),
      value (.finite s m e hm) + value (.finite s' n k hn) = total * 2 ^ exponent ∧
        UnpackedFloat.add Format.binary64 (.finite s m e hm) (.finite s' n k hn) =
          UnpackedFloat.normalize Format.binary64 total exponent .positive := by
  have hleft := decreaseExponent_scaled m e (min e k)
  have hright := decreaseExponent_scaled n k (min e k)
  rw [decreaseExponent_snd m (min_le_left e k)] at hleft
  rw [decreaseExponent_snd n (min_le_right e k)] at hright
  refine ⟨s.apply (decreaseExponent m e (min e k)).1 + s'.apply (decreaseExponent n k (min e k)).1,
    min e k, ?_, rfl⟩
  rw [value, value, ← hleft, ← hright, withSign_mul, withSign_mul, Int.cast_add, cast_apply,
    cast_apply, add_mul]

/-- The exact sum is rounded. -/
theorem isNearest_add {u v : UnpackedFloat} (hu : IsCanonical u) (hv : IsCanonical v) :
    IsNearest (value u + value v) (UnpackedFloat.add Format.binary64 u v) := by
  obtain ⟨s, rfl⟩ | ⟨s, m, e, hm, rfl⟩ := hu.zero_or_finite <;>
    obtain ⟨s', rfl⟩ | ⟨s', n, k, hn, rfl⟩ := hv.zero_or_finite
  · rw [value_zero, value_zero, add_zero]
    cases s <;> cases s' <;> exact isNearest_zero _
  · rw [value_zero, zero_add]
    exact isNearest_value hv
  · rw [value_zero, add_zero]
    exact isNearest_value hu
  · obtain ⟨total, exponent, hsum, hadd⟩ := add_finite s s' m n e k hm hn
    rw [hsum, hadd]
    exact isNearest_normalize _ _ _

/-- The negated float is canonical and stands for the negated number. -/
theorem IsCanonical.neg {u : UnpackedFloat} (hu : IsCanonical u) :
    IsCanonical u.neg ∧ value u.neg = -value u := by
  obtain ⟨s, rfl⟩ | ⟨s, m, e, hm, rfl⟩ := hu.zero_or_finite
  · exact ⟨trivial, neg_zero.symm⟩
  · refine ⟨hu, ?_⟩
    cases s
    · exact (neg_neg _).symm
    · rfl

/-- Subtracting is adding the negated float. -/
theorem sub_eq_add_neg (x y : UnpackedFloat) :
    UnpackedFloat.sub Format.binary64 x y = UnpackedFloat.add Format.binary64 x y.neg := by
  cases x <;> cases y <;> try rfl
  next s₁ m₁ e₁ _ s₂ m₂ e₂ _ =>
    have happly (n : ℤ) : (-s₂).apply n = -s₂.apply n := by
      cases s₂
      · exact (Int.neg_neg n).symm
      · rfl
    simp only [UnpackedFloat.sub, UnpackedFloat.add, UnpackedFloat.neg, happly, Int.sub_eq_add_neg]

/-- The exact difference is rounded. -/
theorem isNearest_sub {u v : UnpackedFloat} (hu : IsCanonical u) (hv : IsCanonical v) :
    IsNearest (value u - value v) (UnpackedFloat.sub Format.binary64 u v) := by
  have hdifference : value u - value v = value u + value v.neg := by rw [hv.neg.2]; ring
  rw [Binary64.sub_eq_add_neg, hdifference]
  exact isNearest_add hu hv.neg.1

/-- The exact product is rounded. -/
theorem isNearest_mul {u v : UnpackedFloat} (hu : IsCanonical u) (hv : IsCanonical v) :
    IsNearest (value u * value v) (UnpackedFloat.mul Format.binary64 u v) := by
  obtain ⟨s, rfl⟩ | ⟨s, m, e, hm, rfl⟩ := hu.zero_or_finite <;>
    obtain ⟨s', rfl⟩ | ⟨s', n, k, hn, rfl⟩ := hv.zero_or_finite
  · rw [value_zero, zero_mul]
    exact isNearest_zero _
  · rw [value_zero, zero_mul]
    exact isNearest_zero _
  · rw [value_zero, mul_zero]
    exact isNearest_zero _
  · have hproduct : value (.finite s m e hm) * value (.finite s' n k hn) =
        withSign (s * s') ((m * n : ℕ) * 2 ^ (e + k)) := by
      rw [value, value, withSign_mul_withSign, zpow_add₀ two_ne_zero, Nat.cast_mul]
      congr 1
      ring
    rw [hproduct]
    refine isNearest_exact ?_ (s * s')
    rw [targetExponent_eq]
    -- A factor with all of its bits makes the product long enough; without one it is too fine.
    obtain ⟨-, he, hmbits⟩ := hu
    obtain ⟨-, hk, hnbits⟩ := hv
    have hlog (hbits : 2 ^ 52 ≤ m ∨ 2 ^ 52 ≤ n) : 52 ≤ (m * n).log2 := by
      rw [Nat.le_log2 (Nat.mul_pos hm hn).ne']
      rcases hbits with hbits | hbits
      · exact hbits.trans (Nat.le_mul_of_pos_right m hn)
      · exact hbits.trans (Nat.le_mul_of_pos_left n hm)
    rcases hmbits with hmbits | rfl
    · have := hlog (Or.inl hmbits)
      omega
    · rcases hnbits with hnbits | rfl
      · have := hlog (Or.inr hnbits)
        omega
      · omega

/-- The integer root with its accuracy encloses the root. -/
theorem encloses_sqrt (m : ℕ) :
    Encloses (.ofMantissaAndAccuracy (Nat.sqrt m)
      (if m - Nat.sqrt m * Nat.sqrt m = 0 then .exact
        else .inexact (if m - Nat.sqrt m * Nat.sqrt m ≤ Nat.sqrt m then .lt else .gt))) √m where
  le_iff n := by
    have hmantissa (acc : Accuracy) :
        (ExtendedMantissa.ofMantissaAndAccuracy (Nat.sqrt m) acc).mantissa = Nat.sqrt m := by
      rcases acc with _ | (_ | _ | _) <;> rfl
    rw [hmantissa, Real.le_sqrt (Nat.cast_nonneg n) (Nat.cast_nonneg m), Nat.le_sqrt']
    exact_mod_cast Iff.rfl
  ceiling_le n hn := by
    rw [Real.sqrt_le_left (Nat.cast_nonneg n)] at hn
    have hsquare : m ≤ n ^ 2 := by exact_mod_cast hn
    have hroot : Nat.sqrt m * Nat.sqrt m ≤ m := Nat.sqrt_le m
    split
    · next hexact =>
      have hle : Nat.sqrt m ≤ n := by
        by_contra hlt
        nlinarith
      simpa [ceiling, ExtendedMantissa.ofMantissaAndAccuracy] using hle
    · next hinexact =>
      have hlt : Nat.sqrt m < n := by
        by_contra hle
        have : n ^ 2 ≤ Nat.sqrt m * Nat.sqrt m := by nlinarith
        omega
      split <;> simpa [ceiling, ExtendedMantissa.ofMantissaAndAccuracy] using hlt

/-- A root is scaled by half of the exponent, once the exponent is even. -/
theorem sqrt_scaled (m : ℕ) {e t : ℤ} (ht : 2 * t ≤ e) :
    √(m * 2 ^ e) = √((m <<< (e - 2 * t).toNat : ℕ) : ℝ) * 2 ^ t := by
  have hshift : ((e - 2 * t).toNat : ℤ) = e - 2 * t := by omega
  have hsquare : (m : ℝ) * 2 ^ e = (m <<< (e - 2 * t).toNat : ℕ) * (2 ^ t) ^ 2 := by
    rw [Nat.shiftLeft_eq, Nat.cast_mul, Nat.cast_pow, Nat.cast_two, mul_assoc,
      ← zpow_natCast, hshift, ← zpow_natCast, ← zpow_mul, ← zpow_add₀ two_ne_zero]
    congr 2
    push_cast
    ring
  rw [hsquare, Real.sqrt_mul (Nat.cast_nonneg _), Real.sqrt_sq (zpow_pos two_pos t).le]

/-- The integer root of a number of 105 bits has 53 bits. -/
theorem le_log2_sqrt {m n : ℕ} (hm : m ≠ 0) (h : 104 ≤ m.log2 + n) :
    52 ≤ (Nat.sqrt (m <<< n)).log2 := by
  have hne : m <<< n ≠ 0 := by simp [Nat.shiftLeft_eq, hm]
  have hlong : 2 ^ 104 ≤ m <<< n := by
    rw [← Nat.le_log2 hne, log2_shiftLeft hm]
    exact h
  have hroot : 2 ^ 52 ≤ Nat.sqrt (m <<< n) := Nat.le_sqrt'.mpr hlong
  exact (Nat.le_log2 (by omega)).mpr hroot

/-- The square root of a number that is not negative is rounded. -/
theorem isRounded_sqrt {u : UnpackedFloat} (hu : IsCanonical u) (hpos : 0 ≤ value u) :
    IsRounded √(value u) (UnpackedFloat.sqrt Format.binary64 u) := by
  obtain ⟨s, rfl⟩ | ⟨s, m, e, hm, rfl⟩ := hu.zero_or_finite
  · rw [value_zero, Real.sqrt_zero]
    exact (isNearest_zero s).isRounded
  · have hscaled : (0 : ℝ) < m * 2 ^ e :=
      mul_pos (by exact_mod_cast hm) (zpow_pos two_pos e)
    cases s with
    | negative =>
      have hneg : 0 ≤ -((m : ℝ) * 2 ^ e) := hpos
      linarith
    | positive =>
      simp only [UnpackedFloat.sqrt, sqrtCore]
      generalize htarget : min (e.ediv 2)
        (Format.binary64.targetExponent ((totalExponent m e + 1).ediv 2)) = t
      have heven : 2 * t ≤ e := by
        have hhalf : t ≤ e / 2 := htarget ▸ min_le_left _ _
        omega
      refine isRounded_roundWithAccuracy (Real.sqrt_nonneg _) ?_ ?_ .positive
      · have hquotient : √(value (.finite .positive m e hm)) / 2 ^ t =
            √((m <<< (e - 2 * t).toNat : ℕ) : ℝ) := by
          rw [value, withSign, sqrt_scaled m heven,
            mul_div_cancel_right₀ _ (zpow_pos two_pos t).ne']
        rw [hquotient]
        exact encloses_sqrt _
      · -- The root has at least 53 bits unless the exponent is the least one.
        have hfine : t ≤ max ((m.log2 + 1 + e + 1) / 2 - 53) (-1074) := by
          have hle : t ≤ Format.binary64.targetExponent ((totalExponent m e + 1) / 2) :=
            htarget ▸ min_le_right _ _
          simp only [Format.targetExponent, totalExponent, Format.mantissaBits,
            Format.minExponent] at hle
          norm_num at hle
          omega
        rw [targetExponent_eq]
        rcases le_or_gt t (-1074) with hleast | hcoarse
        · omega
        · have hbits := le_log2_sqrt hm.ne' (n := (e - 2 * t).toNat) (by omega)
          omega

/-! ## Floats -/

variable {x y : Float} {p q : ℝ}

/-- A float that is rounded within the range stands for the rounded number. -/
theorem IsNearest.unpack_eq {v : ℝ} {u : UnpackedFloat} (h : IsNearest v u)
    (hrange : |v| ≤ 2 ^ (1023 : ℤ)) {z : Float} (hz : z.toModel = Float.Model.pack u) :
    z.toModel.unpack = u := by
  refine unpack_of_isCanonical h.canonical ?_ hz
  have hbound := isRepresentable_two_zpow (k := 1023) (by norm_num)
  exact (h.roundsTo.abs_le_of_abs_le hbound hrange).trans_lt
    (zpow_lt_zpow_right₀ one_lt_two (by norm_num))

/-- A float that is rounded within the range stands for the number rounded to 53 significant bits,
ties to even. -/
theorem IsNearest.hasValue {v : ℝ} {u : UnpackedFloat} (h : IsNearest v u)
    (hrange : |v| ≤ 2 ^ (1023 : ℤ)) {z : Float} (hz : z.toModel = Float.Model.pack u) :
    ∃ r, HasValue z r ∧ RoundsTo v r := by
  have hunpack := h.unpack_eq hrange hz
  exact ⟨value u, ⟨by rw [hunpack]; exact h.canonical, by rw [hunpack]⟩, h.roundsTo⟩

/-- A sum of finite floats is the exact sum rounded, if that is in range. -/
theorem HasValue.add (hx : HasValue x p) (hy : HasValue y q) (hrange : |p + q| ≤ 2 ^ (1023 : ℤ)) :
    ∃ r, HasValue (x + y) r ∧ RoundsTo (p + q) r := by
  obtain ⟨hx, rfl⟩ := hx
  obtain ⟨hy, rfl⟩ := hy
  exact (isNearest_add hx hy).hasValue hrange rfl

/-- A difference of finite floats is the exact difference rounded, if that is in range. -/
theorem HasValue.sub (hx : HasValue x p) (hy : HasValue y q) (hrange : |p - q| ≤ 2 ^ (1023 : ℤ)) :
    ∃ r, HasValue (x - y) r ∧ RoundsTo (p - q) r := by
  obtain ⟨hx, rfl⟩ := hx
  obtain ⟨hy, rfl⟩ := hy
  exact (isNearest_sub hx hy).hasValue hrange rfl

/-- A representable sum is exact. -/
theorem HasValue.add_exact (hx : HasValue x p) (hy : HasValue y q) (h : IsRepresentable (p + q))
    (hrange : |p + q| ≤ 2 ^ (1023 : ℤ)) : HasValue (x + y) (p + q) := by
  obtain ⟨r, hr, hrounds⟩ := hx.add hy hrange
  exact hrounds.eq_of_isRepresentable h ▸ hr

/-- A representable difference is exact. -/
theorem HasValue.sub_exact (hx : HasValue x p) (hy : HasValue y q) (h : IsRepresentable (p - q))
    (hrange : |p - q| ≤ 2 ^ (1023 : ℤ)) : HasValue (x - y) (p - q) := by
  obtain ⟨r, hr, hrounds⟩ := hx.sub hy hrange
  exact hrounds.eq_of_isRepresentable h ▸ hr

/-- What is lost of a sum is computed exactly from the larger summand. -/
theorem HasValue.lost {z : Float} {r : ℝ} (hx : HasValue x p) (hy : HasValue y q)
    (hz : HasValue z r) (hrounds : RoundsTo (p + q) r) (hle : |q| ≤ |p|)
    (hrange : |p| + |q| ≤ 2 ^ (1022 : ℤ)) : HasValue ((x - z) + y) (p + q - r) := by
  have hbound := isRepresentable_two_zpow (k := 1022) (by norm_num)
  have hdouble : (2 : ℝ) ^ (1022 : ℤ) + 2 ^ (1022 : ℤ) = 2 ^ (1023 : ℤ) := by
    rw [← two_mul, ← zpow_one_add₀ two_ne_zero]
    norm_num
  have hp : |p| ≤ 2 ^ (1022 : ℤ) := (le_add_of_nonneg_right (abs_nonneg q)).trans hrange
  have hsum : |p + q| ≤ 2 ^ (1022 : ℤ) := (abs_add_le p q).trans hrange
  have hr : |r| ≤ 2 ^ (1022 : ℤ) := hrounds.abs_le_of_abs_le hbound hsum
  have hdifference : HasValue (x - z) (p - r) :=
    hx.sub_exact hz (hrounds.isRepresentable_sub hx.isRepresentable hy.isRepresentable hle)
      ((abs_sub p r).trans ((add_le_add hp hr).trans hdouble.le))
  have hlost : p - r + q = p + q - r := by ring
  rw [← hlost]
  refine hdifference.add_exact hy ?_ ?_ <;> rw [hlost]
  · exact hrounds.isRepresentable_lost hx.isRepresentable hy.isRepresentable
  · exact (abs_sub (p + q) r).trans ((add_le_add hsum hr).trans hdouble.le)

/-- The difference of a finite float and itself is zero. -/
theorem HasValue.sub_itself (hx : HasValue x p) : HasValue (x - x) 0 := by
  have hzero : p - p = 0 := sub_eq_zero_of_eq rfl
  have hrange : |p - p| ≤ 2 ^ (1023 : ℤ) := by
    rw [hzero, abs_zero]
    exact (zpow_pos two_pos _).le
  exact hzero ▸ hx.sub_exact hx (hzero ▸ hasValue_zero.isRepresentable) hrange

/-- A sum of finite floats compares as the exact sum does. -/
theorem HasValue.rounds_add (hx : HasValue x p) (hy : HasValue y q) : Rounds (p + q) (x + y) := by
  obtain ⟨hx, rfl⟩ := hx
  obtain ⟨hy, rfl⟩ := hy
  exact (isNearest_add hx hy).isRounded.rounds rfl

/-- A difference of finite floats compares as the exact difference does. -/
theorem HasValue.rounds_sub (hx : HasValue x p) (hy : HasValue y q) : Rounds (p - q) (x - y) := by
  obtain ⟨hx, rfl⟩ := hx
  obtain ⟨hy, rfl⟩ := hy
  exact (isNearest_sub hx hy).isRounded.rounds rfl

/-- A product of finite floats compares as the exact product does. -/
theorem HasValue.rounds_mul (hx : HasValue x p) (hy : HasValue y q) : Rounds (p * q) (x * y) := by
  obtain ⟨hx, rfl⟩ := hx
  obtain ⟨hy, rfl⟩ := hy
  exact (isNearest_mul hx hy).isRounded.rounds rfl

/-- The square root of a finite float compares as the exact root does. -/
theorem HasValue.rounds_sqrt (hx : HasValue x p) (hp : 0 ≤ p) : Rounds √p x.sqrt := by
  obtain ⟨hx, rfl⟩ := hx
  exact (isRounded_sqrt hx hp).rounds rfl

/-- The difference of an infinity and a finite float is this infinity. -/
theorem unpack_sub_of_infinity {x y : Float} {p : ℝ} (hx : HasValue x p) {sign : Sign}
    (hy : y.toModel.unpack = .infinity sign) : (y - x).toModel.unpack = .infinity sign := by
  have hsub : UnpackedFloat.sub Format.binary64 y.toModel.unpack x.toModel.unpack =
      .infinity sign := by
    rw [hy]
    obtain ⟨s, h⟩ | ⟨s, m, e, hm, h⟩ := hx.1.zero_or_finite <;> rw [h] <;> rfl
  change (Float.Model.pack (UnpackedFloat.sub _ y.toModel.unpack x.toModel.unpack)).unpack = _
  rw [hsub]
  cases sign <;> rfl

/-- The difference of what is no number and a float is no number. -/
theorem unpack_sub_of_notANumber {x y : Float} (hy : y.toModel.unpack = .notANumber) :
    (y - x).toModel.unpack = .notANumber := by
  have hsub : UnpackedFloat.sub Format.binary64 y.toModel.unpack x.toModel.unpack =
      .notANumber := by
    rw [hy]
    cases x.toModel.unpack <;> rfl
  change (Float.Model.pack (UnpackedFloat.sub _ y.toModel.unpack x.toModel.unpack)).unpack = _
  rw [hsub]
  rfl

end ColorWords.Binary64
