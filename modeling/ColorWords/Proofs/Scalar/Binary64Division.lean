import ColorWords.Proofs.Scalar.Binary64Arithmetic

/-!
# Quotients and products of 64-bit floats

A quotient of floats is the integer quotient of their significands, one of them shifted far enough
to leave 53 bits, with a note of what the division leaves over. So it is the exact quotient rounded,
also for significands that are not normalized. Products and quotients no larger than a finite float
are finite.
-/

namespace ColorWords.Binary64

open Float.Model Float.Model.UnpackedFloat

/-! ## Quotients of integers -/

/-- The extended significand of a quotient of natural numbers. -/
def quotient (n d : ℕ) : ExtendedMantissa :=
  .ofMantissaAndAccuracy (n / d) (accuracyOfFraction (n % d) d)

/-- The whole part of a quotient and what is left of it. -/
theorem div_eq_add_mod (n : ℕ) {d : ℕ} (hd : 0 < d) :
    (n : ℝ) / d = (n / d : ℕ) + (n % d : ℕ) / d := by
  have hcast : (d : ℝ) ≠ 0 := Nat.cast_ne_zero.mpr hd.ne'
  have hsplit : (n : ℝ) = d * (n / d : ℕ) + (n % d : ℕ) := by
    exact_mod_cast (Nat.div_add_mod n d).symm
  rw [eq_comm, add_div' _ _ _ hcast, mul_comm, ← hsplit]

/-- The integer quotient and the accuracy of what is left of it split the quotient. -/
theorem splits_quotient (n : ℕ) {d : ℕ} (hd : 0 < d) : Splits (quotient n d) (n / d) := by
  have hpos : (0 : ℝ) < d := by exact_mod_cast hd
  have hlt : ((n % d : ℕ) : ℝ) < d := by exact_mod_cast Nat.mod_lt n hd
  have hnonneg : (0 : ℝ) ≤ (n % d : ℕ) := Nat.cast_nonneg _
  rw [div_eq_add_mod n hd, quotient, accuracyOfFraction]
  generalize n % d = left at hlt hnonneg
  split
  · next hzero => constructor <;> simp [kept, ExtendedMantissa.ofMantissaAndAccuracy, hzero]
  · next hleft =>
    have hleft : (0 : ℝ) < left := by exact_mod_cast Nat.pos_of_ne_zero hleft
    have hfraction : 0 < (left : ℝ) / d := div_pos hleft hpos
    rcases lt_trichotomy (2 * left) d with hbelow | hhalf | habove
    · have hcast : (left : ℝ) / d < 1 / 2 := by
        rw [div_lt_div_iff₀ hpos two_pos]
        exact_mod_cast (by omega : left * 2 < 1 * d)
      rw [Nat.compare_eq_lt.mpr hbelow]
      constructor <;> simp [kept, ExtendedMantissa.ofMantissaAndAccuracy] <;> linarith
    · have hcast : (left : ℝ) / d = 1 / 2 := by
        rw [div_eq_div_iff hpos.ne' two_ne_zero]
        exact_mod_cast (by omega : left * 2 = 1 * d)
      rw [Nat.compare_eq_eq.mpr hhalf, hcast]
      constructor <;> simp [kept, ExtendedMantissa.ofMantissaAndAccuracy]
    · have hcast : 1 / 2 < (left : ℝ) / d := by
        rw [div_lt_div_iff₀ two_pos hpos]
        exact_mod_cast (by omega : 1 * d < left * 2)
      have hone : (left : ℝ) / d < 1 := (div_lt_one hpos).mpr hlt
      rw [Nat.compare_eq_gt.mpr habove]
      constructor <;> simp [kept, ExtendedMantissa.ofMantissaAndAccuracy] <;> linarith

/-- The integer quotient and the accuracy of what is left of it enclose the quotient. -/
theorem encloses_quotient (n : ℕ) {d : ℕ} (hd : 0 < d) : Encloses (quotient n d) (n / d) where
  le_iff k := by
    have hmantissa (acc : Accuracy) :
        (ExtendedMantissa.ofMantissaAndAccuracy (n / d) acc).mantissa = n / d := by
      rcases acc with _ | (_ | _ | _) <;> rfl
    rw [quotient, hmantissa, le_div_iff₀ (by exact_mod_cast hd), Nat.le_div_iff_mul_le hd]
    exact_mod_cast Iff.rfl
  ceiling_le k hk := by
    rw [div_le_iff₀ (by exact_mod_cast hd)] at hk
    have hle : n ≤ k * d := by exact_mod_cast hk
    have hsplit := Nat.div_add_mod n d
    rw [quotient, accuracyOfFraction]
    split
    · next hzero =>
      have hquotient : n / d ≤ k := Nat.div_le_of_le_mul (by linarith)
      simpa [ceiling, ExtendedMantissa.ofMantissaAndAccuracy] using hquotient
    · next hleft =>
      have hquotient : n / d < k := by
        by_contra hge
        have := Nat.mul_le_mul_left d (not_lt.mp hge)
        rw [mul_comm d k] at this
        omega
      rcases compare (2 * (n % d)) d <;>
        simpa [ceiling, ExtendedMantissa.ofMantissaAndAccuracy] using hquotient

/-! ## Quotients of floats -/

/-- A significand with its accuracy is rounded if its exponent is small enough. -/
theorem isNearest_roundWithAccuracy {m : ℕ} {e : ℤ} {acc : Accuracy} {v : ℝ} (hv : 0 ≤ v)
    (hencloses : Encloses (.ofMantissaAndAccuracy m acc) (v / 2 ^ e))
    (hsplits : Splits (.ofMantissaAndAccuracy m acc) (v / 2 ^ e))
    (he : e ≤ Format.binary64.targetExponent (totalExponent m e)) (sign : Sign) :
    IsNearest (withSign sign v) (roundWithAccuracy Format.binary64 sign m e acc) := by
  obtain ⟨t, het, hgrid, hcanonical, hvalue⟩ := roundWithAccuracy_eq hencloses he sign
  refine ⟨hcanonical, ?_⟩
  rw [hvalue]
  exact ((hsplits.shiftRight het).roundsTo hv hgrid).withSign sign

/-- Signs divide as numbers do. -/
theorem withSign_div_withSign (s s' : Sign) (x y : ℝ) :
    withSign s x / withSign s' y = withSign (s / s') (x / y) := by
  cases s <;> cases s'
  · exact neg_div_neg_eq x y
  · exact neg_div y x
  · exact div_neg x
  · rfl

/-- A divisor that is not zero takes away no more bits than it has. -/
theorem log2_le_log2_div_add {m n : ℕ} (hm : m ≠ 0) (hn : 0 < n) :
    m.log2 ≤ (m / n).log2 + n.log2 + 1 := by
  rw [← Nat.lt_succ_iff, Nat.log2_lt hm]
  have hquotient : m / n < 2 ^ ((m / n).log2 + 1) := Nat.lt_log2_self
  have hdivisor : n < 2 ^ (n.log2 + 1) := Nat.lt_log2_self
  calc m < (m / n + 1) * n := by rw [mul_comm]; exact Nat.lt_mul_div_succ m hn
    _ ≤ 2 ^ ((m / n).log2 + 1) * 2 ^ (n.log2 + 1) := Nat.mul_le_mul hquotient hdivisor.le
    _ = 2 ^ ((m / n).log2 + n.log2 + 1).succ := by rw [← pow_add]; congr 1; omega

/-- The quotient of finite floats is rounded, also if they are not canonical. -/
theorem isNearest_div_finite (s s' : Sign) {m n : ℕ} (e k : ℤ) (hm : 0 < m) (hn : 0 < n) :
    IsNearest (value (.finite s m e hm) / value (.finite s' n k hn))
      (UnpackedFloat.div Format.binary64 (.finite s m e hm) (.finite s' n k hn)) := by
  rw [value, value, withSign_div_withSign]
  simp only [UnpackedFloat.div, divCore]
  generalize htarget : min (e - k)
    (Format.binary64.targetExponent (totalExponent m e - totalExponent n k)) = t
  have hexponent : ((e - k - t).toNat : ℤ) = e - k - t := by
    have hle : t ≤ e - k := htarget ▸ min_le_left _ _
    omega
  have hne : m <<< (e - k - t).toNat ≠ 0 := by simp [Nat.shiftLeft_eq, hm.ne']
  have hscaled : (m : ℝ) * 2 ^ e / (n * 2 ^ k) / 2 ^ t = (m <<< (e - k - t).toNat : ℕ) / n := by
    have hpower : (2 : ℝ) ^ (e - k - t).toNat = 2 ^ e / 2 ^ k / 2 ^ t := by
      rw [← zpow_natCast, hexponent, zpow_sub₀ two_ne_zero, zpow_sub₀ two_ne_zero]
    rw [Nat.shiftLeft_eq]
    push_cast
    rw [hpower]
    field_simp
  refine isNearest_roundWithAccuracy (by positivity) ?_ ?_ ?_ (s / s')
  · rw [hscaled]
    exact encloses_quotient _ hn
  · rw [hscaled]
    exact splits_quotient _ hn
  · -- The quotient has at most one bit less than the difference of lengths promises.
    have hfine : t ≤ max (m.log2 + e - (n.log2 + k) - 53) (-1074) := by
      have hle : t ≤ Format.binary64.targetExponent (totalExponent m e - totalExponent n k) :=
        htarget ▸ min_le_right _ _
      simp only [Format.targetExponent, totalExponent, Format.mantissaBits,
        Format.minExponent] at hle
      norm_num at hle
      omega
    have hbits := log2_le_log2_div_add hne hn
    rw [log2_shiftLeft hm.ne'] at hbits
    rw [targetExponent_eq]
    omega

/-- The exact quotient is rounded. -/
theorem isNearest_div {u v : UnpackedFloat} (hu : IsCanonical u) (hv : IsCanonical v)
    (hne : value v ≠ 0) :
    IsNearest (value u / value v) (UnpackedFloat.div Format.binary64 u v) := by
  obtain ⟨s', rfl⟩ | ⟨s', n, k, hn, rfl⟩ := hv.zero_or_finite
  · exact absurd (value_zero s') hne
  · obtain ⟨s, rfl⟩ | ⟨s, m, e, hm, rfl⟩ := hu.zero_or_finite
    · rw [value_zero, zero_div]
      exact isNearest_zero _
    · exact isNearest_div_finite s s' e k hm hn

/-! ## Finite results -/

/-- A rounded float is finite if the exact number is no larger than a finite float. -/
theorem IsNearest.hasValue_of_le {v g : ℝ} {u : UnpackedFloat} (h : IsNearest v u)
    (hg : IsRepresentable g) (hlt : g < 2 ^ (1024 : ℤ)) (hle : |v| ≤ g) {z : Float}
    (hz : z.toModel = Float.Model.pack u) : ∃ r, HasValue z r ∧ RoundsTo v r := by
  have hrange := (h.roundsTo.abs_le_of_abs_le hg hle).trans_lt hlt
  have hunpack := unpack_of_isCanonical h.canonical hrange hz
  exact ⟨value u, ⟨by rw [hunpack]; exact h.canonical, by rw [hunpack]⟩, h.roundsTo⟩

variable {x y : Float} {p q g : ℝ}

/-- A product of finite floats is the exact product rounded, if this is in range. -/
theorem HasValue.mul (hx : HasValue x p) (hy : HasValue y q) (hg : IsRepresentable g)
    (hlt : g < 2 ^ (1024 : ℤ)) (hle : |p * q| ≤ g) :
    ∃ r, HasValue (x * y) r ∧ RoundsTo (p * q) r := by
  obtain ⟨hx, rfl⟩ := hx
  obtain ⟨hy, rfl⟩ := hy
  exact (isNearest_mul hx hy).hasValue_of_le hg hlt hle rfl

/-- A quotient of finite floats is the exact quotient rounded, if this is in range. -/
theorem HasValue.div (hx : HasValue x p) (hy : HasValue y q) (hne : q ≠ 0)
    (hg : IsRepresentable g) (hlt : g < 2 ^ (1024 : ℤ)) (hle : |p / q| ≤ g) :
    ∃ r, HasValue (x / y) r ∧ RoundsTo (p / q) r := by
  obtain ⟨hx, rfl⟩ := hx
  obtain ⟨hy, rfl⟩ := hy
  exact (isNearest_div hx hy hne).hasValue_of_le hg hlt hle rfl

end ColorWords.Binary64
