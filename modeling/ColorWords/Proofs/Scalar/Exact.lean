import ColorWords.Proofs.Scalar.Order
import ColorWords.Summation
import Mathlib

/-!
# Exact scalars

Every linearly ordered field is a type of scalars in which all operations are exact and all
values are numbers below infinity. Read over such a field, decimal constants are the decimals
they spell, hundredths are hundredths, and a compensated sum is the plain sum.
-/

namespace ColorWords

open Scalar

variable {K : Type} [Field K] [LinearOrder K]

/-- The scalars of a linearly ordered field. -/
instance Scalar.instOfField : Scalar K where
  multiplyAdd x y z := x * y + z
  decideLt := inferInstance
  decideLe := inferInstance
  totalCompare := compare
  belowInfinity _ := true

/-- The total order of a field is its linear order. -/
instance Scalar.instTransCmpOfField : Std.TransCmp (Scalar.totalCompare : K → K → Ordering) :=
  inferInstanceAs (Std.TransCmp (compare : K → K → Ordering))

/-- A product is added without rounding. -/
@[simp] theorem Scalar.multiplyAdd_eq (x y z : K) : multiplyAdd x y z = x * y + z := rfl

/-- Natural numbers are themselves. -/
@[simp] theorem Scalar.ofNat_eq_cast (n : ℕ) : (Scalar.ofNat n : K) = n := by
  change (OfScientific.ofScientific n false 0 : K) = n
  rw [NNRatCast.ofScientific_eq_ite]
  simp

/-- Repeated squaring multiplies by the power, given one step for each binary digit. -/
theorem Scalar.timesPower_eq (result base : K) (n : ℕ) {fuel : ℕ} (h : n < fuel) :
    timesPower result base n fuel = result * base ^ n := by
  induction fuel generalizing result base n with
  | zero => omega
  | succ fuel ih =>
    have hsplit : base ^ n = (base * base) ^ (n / 2) * base ^ (n % 2) := by
      rw [← pow_two, ← pow_mul, ← pow_add, Nat.div_add_mod]
    rw [timesPower]
    split
    · next hhalf =>
      -- The last digit is the only one, so no more squares are needed.
      split
      · next hodd => rw [hsplit, hhalf, hodd, pow_zero, one_mul, pow_one]
      · next heven =>
        rw [hsplit, hhalf, Nat.mod_two_not_eq_one.mp heven, pow_zero, pow_zero, one_mul, mul_one]
    · next hhalf =>
      rw [ih _ _ _ (by omega), hsplit]
      split
      · next hodd => rw [hodd, pow_one, mul_assoc, mul_comm base]
      · next heven => rw [Nat.mod_two_not_eq_one.mp heven, pow_zero, mul_one]

/-- In exact arithmetic an addition loses nothing, so the total grows by the term. -/
theorem Accumulator.total_add (acc : Accumulator K) (term : K) :
    (acc.add term).total = acc.total + term := by
  unfold add total
  split <;> ring

/-- The total of an accumulator grows by the sum of the terms added to it. -/
theorem Accumulator.total_foldl_add (terms : List K) (acc : Accumulator K) :
    (terms.foldl add acc).total = acc.total + terms.sum := by
  induction terms generalizing acc with
  | nil => simp
  | cons term rest ih => rw [List.foldl_cons, ih, total_add, List.sum_cons, add_assoc]

variable [IsStrictOrderedRing K]

/-- The magnitude of a number is its absolute value. -/
theorem Scalar.magnitude_eq_abs (x : K) : magnitude x = |x| := by
  have hzero : (0.0 : K) = 0 := by norm_num
  unfold magnitude
  rw [hzero]
  split
  · next hneg => exact (abs_of_neg hneg).symm
  · next hneg => exact (abs_of_nonneg (not_lt.mp hneg)).symm

/-- The numbers of a field are ordered linearly. -/
instance OrderedScalar.instOfField : OrderedScalar K where
  number_left _ := le_refl _
  number_right _ := le_refl _
  le_trans hxy hyz := hxy.trans hyz
  le_total _ _ := LinearOrder.le_total _ _
  lt_iff := lt_iff_le_not_ge
  belowInfinity_of_lt _ := rfl
  number_of_belowInfinity _ := le_refl _
  zero_le_one := by norm_num
  neg_half_le_zero := by norm_num
  zero_le_half := by norm_num

/-- Limiting a number to a range does not move it away from the numbers of the range. -/
theorem Scalar.abs_sub_clamp_le {low high x : K} (hx : Within low high x) (y : K) :
    |x - clamp low high y| ≤ |x - y| := by
  obtain ⟨hlow, hhigh⟩ := hx
  unfold clamp
  split
  · next hbelow =>
    rw [abs_of_nonneg (by linarith), abs_of_nonneg (by linarith)]
    linarith
  · split
    · next habove =>
      rw [abs_of_nonpos (by linarith), abs_of_nonpos (by linarith)]
      linarith
    · rfl

/-- The power of a scalar is its power. -/
theorem Scalar.powNat_eq_pow (base : K) (n : ℕ) : powNat base n = base ^ n := by
  have hone : (1.0 : K) = 1 := by norm_num
  rw [powNat, timesPower_eq _ _ _ (Nat.lt_succ_self n), hone, one_mul]

/-- Hundredths are hundredths. -/
theorem Scalar.ofPercent_eq_div (z : ℤ) : (Scalar.ofPercent z : K) = z / 100 := by
  have hundredths (n : ℕ) : (OfScientific.ofScientific n true 2 : K) = n / 100 := by
    rw [NNRatCast.ofScientific_eq_ite, if_pos rfl, NNRat.cast_divNat]
    norm_num
  cases z with
  | ofNat n => exact (hundredths n).trans (by simp)
  | negSucc n =>
    change -(OfScientific.ofScientific (n + 1) true 2 : K) = _
    rw [hundredths, Int.cast_negSucc]
    push_cast
    ring

/-- The total of a list of terms is their sum. -/
theorem Accumulator.total_ofList (terms : List K) : (ofList terms).total = terms.sum := by
  have hzero : (zero : Accumulator K).total = 0 := by norm_num [zero, total]
  rw [ofList, total_foldl_add, hzero, zero_add]

/-- The total of hundredths is the sum of their numbers in hundredths. -/
theorem Accumulator.total_ofList_ofPercent {β : Type} (items : List β) (change : β → ℤ) :
    (ofList (items.map fun item => ofPercent (change item))).total =
      ((items.map change).sum / 100 : K) := by
  rw [total_ofList]
  induction items with
  | nil => simp
  | cons item rest ih =>
    rw [List.map_cons, List.sum_cons, ih, List.map_cons, List.sum_cons, ofPercent_eq_div,
      Int.cast_add, add_div]

end ColorWords
