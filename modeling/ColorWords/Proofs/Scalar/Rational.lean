import ColorWords.Color.Printer
import ColorWords.Proofs.Decimal.Numeral
import ColorWords.Proofs.Scalar.Exact

/-!
# The rational numbers as scalars

Over the rational numbers rounding goes to the nearest integer exactly, halves away from zero, and
a number with a finite decimal expansion is written with the digits of this expansion. Such a text
reads back as the number. Rounding to a number of decimals leads to such numbers only.
-/

namespace ColorWords

namespace Rational

/-! ## Rounding -/

/-- The nearest integer, halves away from zero. -/
def roundAway (x : ℚ) : ℤ := if x < 0 then -round (-x) else round x

/-- Rounding to a number of decimals, halves away from zero. -/
def toDecimals (places : ℕ) (x : ℚ) : ℚ := roundAway (x * 10 ^ places) / 10 ^ places

/-- One number is the nearest to another one among those with the given number of decimals. Of
two that are equally near it is the one away from zero. -/
structure IsNearest (places : ℕ) (x y : ℚ) : Prop where
  exists_eq_div : ∃ n : ℤ, y = n / 10 ^ places
  abs_sub_le : |x - y| ≤ 1 / 2 / 10 ^ places
  abs_lt : |x - y| = 1 / 2 / 10 ^ places → |x| < |y|

/-- Rounding is odd. -/
theorem roundAway_neg (x : ℚ) : roundAway (-x) = -roundAway x := by
  unfold roundAway
  rcases lt_trichotomy x 0 with hx | rfl | hx
  · simp [hx, hx.le]
  · simp
  · simp [hx, hx.le]

/-- Rounding keeps the order of numbers. -/
theorem monotone_roundAway : Monotone roundAway := by
  refine monotone_of_odd_of_monotoneOn_nonneg roundAway_neg fun x hx y hy hxy => ?_
  rw [Set.mem_Ici, ← not_lt] at hx hy
  rw [roundAway, roundAway, if_neg hx, if_neg hy, round_eq, round_eq]
  exact Int.floor_mono (by linarith)

/-- A number that is not negative is rounded up from a half on. -/
theorem roundAway_bounds {x : ℚ} (hx : 0 ≤ x) :
    x - 1 / 2 < roundAway x ∧ (roundAway x : ℚ) ≤ x + 1 / 2 := by
  rw [roundAway, if_neg hx.not_gt, round_eq]
  have hlow := Int.lt_floor_add_one (x + 1 / 2)
  exact ⟨by linarith, Int.floor_le _⟩

/-- A number is at most half from the integer that it is rounded to. -/
theorem abs_sub_roundAway_le (x : ℚ) : |x - roundAway x| ≤ 1 / 2 := by
  have hnonneg {y : ℚ} (hy : 0 ≤ y) : |y - roundAway y| ≤ 1 / 2 := by
    obtain ⟨hlow, hhigh⟩ := roundAway_bounds hy
    exact abs_le.mpr ⟨by linarith, by linarith⟩
  rcases le_total 0 x with hx | hx
  · exact hnonneg hx
  · have h := hnonneg (neg_nonneg.mpr hx)
    rwa [roundAway_neg, Int.cast_neg, neg_sub_neg, abs_sub_comm] at h

/-- A half is rounded to the integer away from zero. -/
theorem abs_lt_abs_roundAway {x : ℚ} (h : |x - roundAway x| = 1 / 2) :
    |x| < |(roundAway x : ℚ)| := by
  have hnonneg {y : ℚ} (hy : 0 ≤ y) (h : |y - roundAway y| = 1 / 2) :
      |y| < |(roundAway y : ℚ)| := by
    obtain ⟨hlow, -⟩ := roundAway_bounds hy
    -- The integer below is nearer than a half would be.
    have hup : (roundAway y : ℚ) = y + 1 / 2 := by
      rcases abs_choice (y - roundAway y) with habs | habs <;> linarith
    rw [hup, abs_of_nonneg hy, abs_of_nonneg (by linarith)]
    linarith
  rcases le_total 0 x with hx | hx
  · exact hnonneg hx h
  · have hneg := hnonneg (neg_nonneg.mpr hx)
    rw [roundAway_neg, Int.cast_neg, neg_sub_neg, abs_sub_comm, abs_neg, abs_neg] at hneg
    exact hneg h

/-- Rounding finds the nearest number. -/
theorem isNearest_toDecimals (places : ℕ) (x : ℚ) : IsNearest places x (toDecimals places x) := by
  have hunit : (0 : ℚ) < 10 ^ places := by positivity
  have hsub : |x - toDecimals places x| =
      |x * 10 ^ places - roundAway (x * 10 ^ places)| / 10 ^ places := by
    rw [toDecimals, ← abs_of_pos hunit, ← abs_div, abs_of_pos hunit, sub_div,
      mul_div_cancel_right₀ _ hunit.ne']
  refine ⟨⟨_, rfl⟩, ?_, fun hhalf => ?_⟩
  · rw [hsub]
    exact div_le_div_of_nonneg_right (abs_sub_roundAway_le _) hunit.le
  · rw [hsub, div_left_inj' hunit.ne'] at hhalf
    have hlt := abs_lt_abs_roundAway hhalf
    rw [abs_mul, abs_of_pos hunit] at hlt
    rw [toDecimals, abs_div, abs_of_pos hunit]
    exact (lt_div_iff₀ hunit).mpr hlt

/-- An integer is not rounded. -/
theorem roundAway_intCast (n : ℤ) : roundAway n = n := by
  unfold roundAway
  split
  · rw [← Int.cast_neg, round_intCast, neg_neg]
  · exact round_intCast n

/-- A number with no more decimals is not changed. -/
theorem toDecimals_eq_self (places : ℕ) (n : ℤ) :
    toDecimals places (n / 10 ^ places) = n / 10 ^ places := by
  have hunit : (10 : ℚ) ^ places ≠ 0 := by positivity
  rw [toDecimals, div_mul_cancel₀ _ hunit, roundAway_intCast]

/-- An integer is not changed. -/
theorem toDecimals_intCast (places : ℕ) (n : ℤ) : toDecimals places n = n := by
  have hunit : (10 : ℚ) ^ places ≠ 0 := by positivity
  have hcast : (n : ℚ) = (n * 10 ^ places : ℤ) / 10 ^ places := by
    push_cast
    rw [mul_div_cancel_right₀ _ hunit]
  rw [hcast, toDecimals_eq_self]

/-- Rounding does not leave a range between numbers with as many decimals. -/
theorem toDecimals_within {places : ℕ} {x : ℚ} {low high : ℤ}
    (h : Within (low / 10 ^ places : ℚ) (high / 10 ^ places) x) :
    Within (low / 10 ^ places : ℚ) (high / 10 ^ places) (toDecimals places x) := by
  have hunit : (0 : ℚ) < 10 ^ places := by positivity
  obtain ⟨hlow, hhigh⟩ := h
  rw [div_le_iff₀ hunit] at hlow
  rw [le_div_iff₀ hunit] at hhigh
  obtain ⟨hbelow, habove⟩ := abs_le.mp (abs_sub_roundAway_le (x * 10 ^ places))
  -- An integer within half of a number is not beyond an integer on either side.
  have hfloor : low ≤ roundAway (x * 10 ^ places) := by
    have hlt : (low : ℚ) < (roundAway (x * 10 ^ places) + 1 : ℤ) := by push_cast; linarith
    exact Int.lt_add_one_iff.mp (by exact_mod_cast hlt)
  have hceiling : roundAway (x * 10 ^ places) ≤ high := by
    have hlt : (roundAway (x * 10 ^ places) : ℚ) < (high + 1 : ℤ) := by push_cast; linarith
    exact Int.lt_add_one_iff.mp (by exact_mod_cast hlt)
  exact ⟨div_le_div_of_nonneg_right (by exact_mod_cast hfloor) hunit.le,
    div_le_div_of_nonneg_right (by exact_mod_cast hceiling) hunit.le⟩

/-! ## Decimal text -/

/-- The number has a finite decimal expansion. -/
def IsDecimal (x : ℚ) : Prop := ∃ (n : ℤ) (places : ℕ), x = n / 10 ^ places

/-- Rounding to decimals leads to a number with a finite expansion. -/
theorem isDecimal_toDecimals (places : ℕ) (x : ℚ) : IsDecimal (toDecimals places x) :=
  ⟨_, places, rfl⟩

/-- The least number of decimals that a number needs, which is none if its expansion does not
end. -/
def placesOf (x : ℚ) : ℕ := if h : ∃ n ≤ x.den, x.den ∣ 10 ^ n then Nat.find h else 0

/-- The decimal of an absolute value, cut at the point if its expansion does not end. -/
def decimalOf (x : ℚ) : Decimal := ⟨⌊|x| * 10 ^ placesOf x⌋₊, -placesOf x⟩

/-- The text of a number. -/
def write (x : ℚ) : List Char :=
  if x < 0 then '-' :: (decimalOf x).write else (decimalOf x).write

/-- The number that a literal stands for, if it is finite. -/
def ofLiteral? : Bool × Literal → Option ℚ
  | (negative, .finite d) => some (if negative then -d.value else d.value)
  | _ => none

/-- A number that divides a power of another one divides the power with itself as exponent. -/
theorem dvd_pow_self_of_dvd_pow {d base n : ℕ} (hd : d ≠ 0) (hbase : base ≠ 0)
    (h : d ∣ base ^ n) : d ∣ base ^ d := by
  rw [← Nat.factorization_le_iff_dvd hd (pow_ne_zero _ hbase), Nat.factorization_pow,
    Finsupp.le_def] at *
  intro p
  have hp := h p
  rw [Finsupp.smul_apply, smul_eq_mul] at *
  rcases Nat.eq_zero_or_pos (base.factorization p) with hzero | hpos
  · rw [hzero] at hp ⊢
    simpa using hp
  · exact (Nat.factorization_lt p hd).le.trans (Nat.le_mul_of_pos_right d hpos)

/-- The denominator of a number divides the power of ten that it is given over. -/
theorem den_dvd (n : ℤ) (places : ℕ) : ((n : ℚ) / 10 ^ places).den ∣ 10 ^ places := by
  have hdvd := Rat.den_dvd n (10 ^ places)
  rw [Rat.divInt_eq_div, Int.cast_pow, Int.cast_ofNat] at hdvd
  exact_mod_cast hdvd

/-- A number with a finite expansion becomes an integer when its decimals are shifted. -/
theorem den_dvd_of_isDecimal {x : ℚ} (h : IsDecimal x) : x.den ∣ 10 ^ placesOf x := by
  obtain ⟨n, places, rfl⟩ := h
  have hexists : ∃ m ≤ ((n : ℚ) / 10 ^ places).den, ((n : ℚ) / 10 ^ places).den ∣ 10 ^ m :=
    ⟨_, le_refl _, dvd_pow_self_of_dvd_pow (Rat.den_ne_zero _) (by decide) (den_dvd n places)⟩
  rw [placesOf, dif_pos hexists]
  exact (Nat.find_spec hexists).2

/-- A number needs no more decimals than it is given with. -/
theorem placesOf_le (n : ℤ) (places : ℕ) : placesOf ((n : ℚ) / 10 ^ places) ≤ places := by
  unfold placesOf
  split
  · next hexists =>
    rcases le_total places ((n : ℚ) / 10 ^ places).den with hle | hle
    · exact Nat.find_min' hexists ⟨hle, den_dvd n places⟩
    · exact (Nat.find_spec hexists).1.trans hle
  · exact Nat.zero_le _

/-- The decimal of a number with a finite expansion is its absolute value. -/
theorem value_decimalOf {x : ℚ} (h : IsDecimal x) : (decimalOf x).value = |x| := by
  obtain ⟨k, hk⟩ := den_dvd_of_isDecimal h
  have hshift : |x| * 10 ^ placesOf x = (x.num.natAbs * k : ℕ) := by
    have hden : (x.den : ℚ) ≠ 0 := Nat.cast_ne_zero.mpr x.den_ne_zero
    have habs : |x| = (x.num.natAbs : ℚ) / x.den := by
      rw [Nat.cast_natAbs, Int.cast_abs, ← Nat.abs_cast x.den, ← abs_div, Rat.num_div_den]
    have hpower : (10 : ℚ) ^ placesOf x = x.den * k := by exact_mod_cast hk
    rw [habs, hpower]
    push_cast
    field_simp
  have hunit : (10 : ℚ) ^ placesOf x ≠ 0 := by positivity
  rw [Decimal.value, decimalOf, hshift, Nat.floor_natCast, ← hshift, zpow_neg, zpow_natCast,
    mul_inv_cancel_right₀ hunit]

/-- The text of a number with a finite expansion reads back as the number. -/
theorem ofLiteral?_read?_write {x : ℚ} (h : IsDecimal x) :
    (Literal.read? (write x)).bind ofLiteral? = some x := by
  obtain ⟨hplain, hminus⟩ := (decimalOf x).read?_write
  have hvalue : (decimalOf x).expanded.value = |x| := by
    rw [Decimal.value_expanded, value_decimalOf h]
  unfold write
  split
  · next hneg => simp [hminus, ofLiteral?, hvalue, abs_of_neg hneg]
  · next hneg => simp [hplain, ofLiteral?, hvalue, abs_of_nonneg (not_lt.mp hneg)]

/-- The text of a number is a numeral with no more decimals than the number is given with. -/
theorem isNumeral_write (n : ℤ) (places : ℕ) :
    Decimal.IsNumeral places (write (n / 10 ^ places)) := by
  have hplaces : -(decimalOf ((n : ℚ) / 10 ^ places)).exponent ≤ places := by
    rw [decimalOf, neg_neg]
    exact_mod_cast placesOf_le n places
  obtain ⟨hplain, hminus⟩ := Decimal.isNumeral_write hplaces
  unfold write
  split
  · next hneg =>
    refine hminus fun hzero => hneg.ne ?_
    have hvalue := value_decimalOf ⟨n, places, rfl⟩
    rw [Decimal.value, hzero, Nat.cast_zero, zero_mul, eq_comm, abs_eq_zero] at hvalue
    exact hvalue
  · exact hplain

end Rational

/-- The rounding and the decimal text of rational numbers. -/
instance Numeral.instRat : Numeral ℚ where
  round x := Rational.roundAway x
  toNat x := ⌊x⌋₊
  write := Rational.write
  read? text := (Literal.read? text).bind Rational.ofLiteral?

end ColorWords
