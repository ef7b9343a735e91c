import ColorWords.Proofs.Decimal.Numeral
import ColorWords.Proofs.Decimal.Shortest
import ColorWords.Proofs.Scalar.Binary64Fields

/-!
# Writing 64-bit floats

The decimal that a finite float is written with is in the interval of the numbers that are rounded
to the float, because this interval is wider than the step of the finest grid that is tried. So a
finite float is written as a numeral, and this is read as the same float.
-/

namespace ColorWords.Binary64

open Float.Model Float.Model.UnpackedFloat

/-! ## The interval of a float -/

/-- The exponent of a float, which scales its significand. -/
def exponentOf (x : Float) : ℤ := scale x - 1074

/-- The magnitude of a float in units of its last bit. -/
theorem magnitudeOf_eq (x : Float) : magnitudeOf x = significand x * 2 ^ exponentOf x := rfl

/-- The part of the last bit, in quarters, by which a number below the magnitude may differ. -/
def quartersBelow (x : Float) : ℕ := if fractionField x = 0 ∧ 1 < exponentField x then 1 else 2

/-- The part is less below a power of two, where the grid is finer. -/
theorem significand_of_quartersBelow {x : Float} (h : quartersBelow x = 1) :
    significand x = 2 ^ 52 ∧ 0 < scale x := by
  have hfields : fractionField x = 0 ∧ 1 < exponentField x := by
    by_contra hnot
    rw [quartersBelow, if_neg hnot] at h
    cases h
  unfold significand scale exponentUnit
  rw [if_neg (by omega)]
  omega

/-- Otherwise the significand is above the first one that has all bits, unless the scale is the
least one. -/
theorem lt_significand_or {x : Float} (h : quartersBelow x ≠ 1) :
    scale x = 0 ∨ 2 ^ 52 < significand x := by
  have hfields : ¬ (fractionField x = 0 ∧ 1 < exponentField x) := fun hfields =>
    h (if_pos hfields)
  unfold significand scale exponentUnit
  split <;> omega

/-- The power of two that scales the significand, in units of the last bit. -/
theorem two_pow_scale (x : Float) : (2 : ℝ) ^ scale x = 2 ^ exponentOf x * 2 ^ 1074 := by
  rw [exponentOf, ← zpow_natCast, ← zpow_natCast, ← zpow_add₀ two_ne_zero]
  congr 1
  omega

/-- The denominator makes four units of what is scaled in the interval. -/
theorem denominator_eq (x : Float) : ((interval x).denominator : ℝ) = 4 * 2 ^ 1074 := by
  have hsplit : (2 : ℝ) ^ 1076 = 2 ^ 2 * 2 ^ 1074 := pow_add 2 2 1074
  simp only [interval, Nat.pow_eq, Nat.cast_pow, Nat.cast_ofNat]
  rw [hsplit]
  norm_num

/-- The value of the interval is the magnitude. -/
theorem value_eq (x : Float) :
    ((interval x).value : ℝ) = 4 * significand x * 2 ^ exponentOf x * 2 ^ 1074 := by
  change ((4 * significand x * 2 ^ scale x : ℕ) : ℝ) = _
  rw [mul_assoc _ (2 ^ exponentOf x), ← two_pow_scale]
  push_cast
  rfl

/-- The upper end of the interval is half of the last bit above the magnitude. -/
theorem high_eq (x : Float) :
    ((interval x).high : ℝ) = (4 * significand x + 2) * 2 ^ exponentOf x * 2 ^ 1074 := by
  change (((4 * significand x + 2) * 2 ^ scale x : ℕ) : ℝ) = _
  rw [mul_assoc, ← two_pow_scale]
  push_cast
  rfl

/-- The part below the magnitude is no more than half of the last bit. -/
theorem quartersBelow_le (x : Float) : (quartersBelow x : ℝ) ≤ 2 := by
  unfold quartersBelow
  split <;> norm_num

/-- A number in the interval of a finite float differs from its magnitude by half of the last bit at
most, and by less if the significand is odd. -/
theorem bounds_of_contains {x : Float} (hne : significand x ≠ 0) {v : ℝ}
    (h : (interval x).Contains v) :
    (4 * significand x - quartersBelow x) * 2 ^ exponentOf x ≤ 4 * v ∧
      4 * v ≤ (4 * significand x + 2) * 2 ^ exponentOf x ∧
      (¬ Even (significand x) →
        (4 * significand x - quartersBelow x) * 2 ^ exponentOf x < 4 * v ∧
          4 * v < (4 * significand x + 2) * 2 ^ exponentOf x) := by
  have hunit : (0 : ℝ) < 2 ^ 1074 := by positivity
  have hlow : ((interval x).low : ℝ) =
      (4 * significand x - quartersBelow x) * 2 ^ exponentOf x * 2 ^ 1074 := by
    have hle : quartersBelow x ≤ 4 * significand x := by unfold quartersBelow; split <;> omega
    change (((4 * significand x - quartersBelow x) * 2 ^ scale x : ℕ) : ℝ) = _
    rw [mul_assoc, ← two_pow_scale, Nat.cast_mul, Nat.cast_sub hle]
    push_cast
    rfl
  have hdenominator : v * (interval x).denominator = 4 * v * 2 ^ 1074 := by
    rw [denominator_eq, ← mul_assoc, mul_comm v]
  rw [Interval.Contains, hdenominator, hlow, high_eq, mul_le_mul_iff_of_pos_right hunit,
    mul_le_mul_iff_of_pos_right hunit, mul_lt_mul_iff_of_pos_right hunit,
    mul_lt_mul_iff_of_pos_right hunit] at h
  split at h
  · next hclosed =>
    have heven : Even (significand x) := Nat.even_iff.mpr (beq_iff_eq.mp hclosed)
    exact ⟨h.1, h.2, fun hodd => absurd heven hodd⟩
  · exact ⟨h.1.le, h.2.le, fun _ => h⟩

/-- The numbers in the interval of a float other than zero are positive. -/
theorem pos_of_contains {x : Float} (hne : significand x ≠ 0) {v : ℝ}
    (h : (interval x).Contains v) : 0 < v := by
  have hone : (1 : ℝ) ≤ significand x := by exact_mod_cast Nat.pos_of_ne_zero hne
  have hlow : 0 < (4 * significand x - quartersBelow x : ℝ) * 2 ^ exponentOf x :=
    mul_pos (by linarith [quartersBelow_le x]) (zpow_pos two_pos _)
  linarith [(bounds_of_contains hne h).1]

/-- Numbers from the magnitude on are on the grid of the float, and so are all others in the
interval unless the significand is a power of two. -/
theorem isGridOf_exponentOf {x : Float} (hne : significand x ≠ 0) {v : ℝ}
    (h : (interval x).Contains v) (hside : quartersBelow x = 1 → magnitudeOf x ≤ v) :
    IsGridOf (exponentOf x) |v| := by
  obtain ⟨hlow, hhigh, -⟩ := bounds_of_contains hne h
  have hunit : (0 : ℝ) < 2 ^ exponentOf x := zpow_pos two_pos _
  have hlong : (significand x : ℝ) + 1 ≤ 2 ^ 53 := by exact_mod_cast significand_lt_two_pow x
  rw [abs_of_pos (pos_of_contains hne h)]
  refine ⟨?_, ?_, ?_⟩
  · unfold exponentOf
    omega
  · have hroom := mul_le_mul_of_nonneg_right hlong hunit.le
    rw [zpow_add₀ two_ne_zero]
    norm_num at hroom ⊢
    linarith
  · rw [zpow_add₀ two_ne_zero]
    by_cases hquarter : quartersBelow x = 1
    · have habove := hside hquarter
      rw [magnitudeOf_eq, (significand_of_quartersBelow hquarter).1] at habove
      exact Or.inr (by exact_mod_cast habove)
    · rcases lt_significand_or hquarter with hleast | hlarge
      · exact Or.inl (by unfold exponentOf; omega)
      · have hcast : (2 : ℝ) ^ 52 + 1 ≤ significand x := by exact_mod_cast hlarge
        have hlarge := mul_le_mul_of_nonneg_right hcast hunit.le
        have hlower := mul_le_mul_of_nonneg_right (quartersBelow_le x) hunit.le
        refine Or.inr ?_
        norm_num at hlarge ⊢
        linarith

/-- Below a power of two the grid is finer, and the power is the nearest of its multiples. -/
theorem roundsTo_of_lt {x : Float} (hne : significand x ≠ 0) {v : ℝ}
    (h : (interval x).Contains v) (hquarter : quartersBelow x = 1) (hless : v < magnitudeOf x) :
    RoundsTo v (magnitudeOf x) := by
  obtain ⟨hlow, -, -⟩ := bounds_of_contains hne h
  have hpos := pos_of_contains hne h
  obtain ⟨hpower, hnormal⟩ := significand_of_quartersBelow hquarter
  have hfiner : (2 : ℝ) ^ exponentOf x = 2 * 2 ^ (exponentOf x - 1) := by
    rw [zpow_sub_one₀ two_ne_zero]
    ring
  have hmagnitude : magnitudeOf x = (2 ^ 53 : ℤ) * 2 ^ (exponentOf x - 1) := by
    rw [magnitudeOf_eq, hpower, hfiner]
    push_cast
    ring
  have hfine : (0 : ℝ) < 2 ^ (exponentOf x - 1) := zpow_pos two_pos _
  rw [hquarter, hpower, hfiner] at hlow
  rw [hmagnitude] at hless ⊢
  push_cast at hlow hless
  have hdistance : |v - (2 ^ 53 : ℤ) * 2 ^ (exponentOf x - 1)| ≤ 2 ^ (exponentOf x - 1) / 2 := by
    rw [abs_of_neg (by push_cast; linarith)]
    push_cast
    linarith
  refine ⟨exponentOf x - 1, 2 ^ 53, ⟨⟨?_, ?_, Or.inr ?_⟩, hdistance, fun _ => by decide⟩, rfl⟩
  · unfold exponentOf
    omega
  · rw [abs_of_pos hpos, zpow_add₀ two_ne_zero]
    norm_num at hless ⊢
    linarith
  · rw [abs_of_pos hpos, zpow_add₀ two_ne_zero]
    norm_num at hlow ⊢
    linarith

/-- The numbers in the interval of a finite float are rounded to its magnitude. -/
theorem roundsTo_of_contains {x : Float} (hne : significand x ≠ 0) {v : ℝ}
    (h : (interval x).Contains v) : RoundsTo v (magnitudeOf x) := by
  by_cases hbelow : quartersBelow x = 1 ∧ v < magnitudeOf x
  · exact roundsTo_of_lt hne h hbelow.1 hbelow.2
  · have hgrid := isGridOf_exponentOf hne h fun hquarter => not_lt.mp fun hless =>
      hbelow ⟨hquarter, hless⟩
    obtain ⟨hlow, hhigh, hstrict⟩ := bounds_of_contains hne h
    have hunit : (0 : ℝ) < 2 ^ exponentOf x := zpow_pos two_pos _
    have hquarters := mul_le_mul_of_nonneg_right (quartersBelow_le x) hunit.le
    refine ⟨exponentOf x, significand x, ⟨hgrid, ?_, fun heq => ?_⟩, rfl⟩
    · push_cast
      exact abs_le.mpr ⟨by linarith, by linarith⟩
    · by_contra hodd
      obtain ⟨hlower, hupper⟩ := hstrict fun heven => hodd (by exact_mod_cast heven)
      refine heq.not_lt (abs_lt.mpr ⟨?_, ?_⟩)
      · push_cast
        linarith
      · push_cast
        linarith

/-- The smallest of the grids that are tried is finer than half of the last bit. -/
theorem ten_zpow_lt_two_zpow {g t : ℤ} (hnonneg : 10 * g < 3 * t) (hneg : 83 * g < 25 * t) :
    (10 : ℝ) ^ g < 2 ^ t := by
  rcases le_or_gt 0 g with hg | hg
  · have hcube : ((10 : ℝ) ^ g) ^ 3 < (2 ^ t) ^ 3 := by
      calc ((10 : ℝ) ^ g) ^ 3 = (10 ^ (3 : ℤ)) ^ g := by
            rw [← zpow_natCast, ← zpow_mul, ← zpow_mul, mul_comm]
            rfl
        _ ≤ (2 ^ (10 : ℤ)) ^ g := zpow_le_zpow_left₀ hg (by norm_num) (by norm_num)
        _ = 2 ^ (10 * g) := (zpow_mul _ _ _).symm
        _ < 2 ^ (t * 3) := zpow_lt_zpow_right₀ one_lt_two (by omega)
        _ = (2 ^ t) ^ 3 := zpow_mul _ _ _
    exact lt_of_pow_lt_pow_left₀ 3 (by positivity) hcube
  · obtain ⟨n, rfl⟩ : ∃ n : ℕ, g = -n := ⟨g.natAbs, by omega⟩
    have hpower : ((10 : ℝ) ^ (-n : ℤ)) ^ 25 < (2 ^ t) ^ 25 := by
      calc ((10 : ℝ) ^ (-n : ℤ)) ^ 25 = ((10 ^ 25) ^ n)⁻¹ := by
            rw [zpow_neg, zpow_natCast, inv_pow, ← pow_mul, ← pow_mul, mul_comm]
        _ ≤ ((2 ^ 83) ^ n)⁻¹ := by
            refine inv_anti₀ (by positivity) (pow_le_pow_left₀ (by positivity) ?_ n)
            norm_num
        _ = 2 ^ (-(83 * n : ℕ) : ℤ) := by rw [zpow_neg, zpow_natCast, pow_mul]
        _ < 2 ^ (t * 25) := zpow_lt_zpow_right₀ one_lt_two (by omega)
        _ = (2 ^ t) ^ 25 := zpow_mul _ _ _
    exact lt_of_pow_lt_pow_left₀ 25 (by positivity) hpower

/-! ## The shortest decimal -/

/-- The decimal that is found for a float is in its interval. -/
theorem contains_shortest {x : Float} (hne : significand x ≠ 0) :
    (interval x).Contains (shortest x).value := by
  have hbits : (significand x).log2 < 53 := (Nat.log2_lt hne).mpr (significand_lt_two_pow x)
  have hscale : scale x ≤ 2046 := by
    have hfield : exponentField x < 2048 := Nat.mod_lt _ (by decide)
    unfold scale
    omega
  -- The last grid is finer than half of the last bit.
  have hfine : (10 : ℝ) ^ (coarsestGrid x - 19) < 2 ^ (exponentOf x - 1) := by
    unfold coarsestGrid exponentOf
    refine ten_zpow_lt_two_zpow ?_ ?_ <;> omega
  have hstep : ((interval x).value : ℝ) + (interval x).denominator * 10 ^ (coarsestGrid x - 19) <
      (interval x).high := by
    have hhalf : (2 : ℝ) ^ (exponentOf x - 1) * 2 = 2 ^ exponentOf x := by
      rw [zpow_sub_one₀ two_ne_zero, inv_mul_cancel_right₀ two_ne_zero]
    have hstep := mul_lt_mul_of_pos_right hfine (by positivity : (0 : ℝ) < 4 * 2 ^ 1074)
    rw [denominator_eq, high_eq, value_eq]
    generalize (2 : ℝ) ^ 1074 = unit at hstep ⊢
    rw [← hhalf]
    linarith
  have hlow : (interval x).low ≤ (interval x).value := Nat.mul_le_mul_right _ (Nat.sub_le _ _)
  have hpos : 0 < (interval x).denominator := by
    simp only [interval, Nat.pow_eq]
    positivity
  obtain ⟨k, hk⟩ := Interval.exists_onGrid? hpos hlow hstep
  rw [shortest, if_neg hne]
  exact Interval.contains_shortestFrom hk (by omega) (by unfold maxGrids; omega)

/-- The decimal that is found for a finite float is rounded to its magnitude. -/
theorem roundsTo_shortest (x : Float) : RoundsTo (shortest x).value (magnitudeOf x) := by
  by_cases hzero : significand x = 0
  · rw [shortest, if_pos hzero, magnitudeOf, hzero, Decimal.value]
    simpa using roundsTo_zero
  · exact roundsTo_of_contains hzero (contains_shortest hzero)

/-- Only a zero is written with a coefficient of zero. -/
theorem significand_eq_zero {x : Float} (h : (shortest x).coefficient = 0) : significand x = 0 := by
  have hrounds := roundsTo_shortest x
  rw [Decimal.value, h, Nat.cast_zero, zero_mul, Rat.cast_zero] at hrounds
  have hmagnitude := hrounds.unique roundsTo_zero
  rw [magnitudeOf, mul_eq_zero, or_iff_left (zpow_pos two_pos _).ne'] at hmagnitude
  exact_mod_cast hmagnitude

/-! ## Texts -/

/-- A finite float is equal to itself. -/
theorem HasValue.beq_self {x : Float} {p : ℝ} (h : HasValue x p) : (x == x) = true := by
  obtain ⟨a, ha⟩ := exists_key_of_isCanonical h.1
  change (x.toModel.unpack.compare x.toModel.unpack == some Ordering.eq) = true
  rw [compare_eq_compare_key, ha]
  simp

/-- The text of a finite float is that of its decimal, after a minus if its sign is negative. -/
theorem write_eq {x : Float} (h : isFinite x = true) :
    write x = if isNegative x then '-' :: (shortest x).write else (shortest x).write := by
  have hself := (hasValue_iff.mpr ⟨h, rfl⟩).beq_self
  rw [write, h, hself, Bool.and_true]
  rfl

/-- The decimal of a finite float is read as its magnitude. -/
theorem hasValue_shortest {x : Float} (h : isFinite x = true) :
    HasValue (ofDecimal (shortest x).expanded) (magnitudeOf x) := by
  have hvalue := hasValue_iff.mpr ⟨h, rfl⟩
  refine hasValue_ofDecimal ?_ ?_
  · rw [Decimal.value_expanded]
    exact roundsTo_shortest x
  · rw [← hvalue.abs_eq]
    exact hvalue.abs_lt

/-- A decimal is not read as the negative zero. -/
theorem isPlain_shortest {x : Float} (h : isFinite x = true) :
    IsPlain (ofDecimal (shortest x).expanded) := by
  by_cases hzero : significand x = 0
  · rw [shortest, if_pos hzero]
    exact isPlain_zero
  · refine (hasValue_shortest h).isPlain ?_
    unfold magnitudeOf
    positivity

/-- A finite float is read back from its text. -/
theorem read?_write {x : Float} (h : isFinite x = true) : read? (write x) = some x := by
  obtain ⟨hplain, hminus⟩ := (shortest x).read?_write
  have hread : read? (write x) = some (if isNegative x then -ofDecimal (shortest x).expanded
      else ofDecimal (shortest x).expanded) := by
    rw [write_eq h, read?]
    split
    · rw [hminus]
      rfl
    · rw [hplain]
      rfl
  rw [hread, eq_signed_magnitude h (hasValue_shortest h) (isPlain_shortest h)]

/-- A finite float other than the negative zero is written as a numeral. -/
theorem isNumeral_write {x : Float} (h : isFinite x = true) (hplain : IsPlain x) :
    ∃ places, Decimal.IsNumeral places (write x) := by
  obtain ⟨hnumeral, hminus⟩ := Decimal.isNumeral_write (Int.self_le_toNat (-(shortest x).exponent))
  refine ⟨(-(shortest x).exponent).toNat, ?_⟩
  rw [write_eq h]
  split
  · next hnegative =>
    refine hminus fun hzero => hplain ?_
    rw [unpack_eq_zero h (significand_eq_zero hzero), signOf, if_pos hnegative]
  · exact hnumeral

end ColorWords.Binary64
