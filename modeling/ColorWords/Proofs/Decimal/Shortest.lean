import ColorWords.Decimal.Shortest
import ColorWords.Proofs.Decimal.Text

/-!
# Shortest decimals in an interval

A point of a grid of powers of ten that is found in an interval is in it as a real number. A grid
whose step is smaller than the part of the interval above its value has a point in the interval, so
that a decimal is found as soon as such a grid is among those that are tried.
-/

namespace ColorWords

namespace Interval

/-- The interval contains the number. Its ends are numerators over the denominator. -/
def Contains (interval : Interval) (v : ℝ) : Prop :=
  if interval.closed then
    interval.low ≤ v * interval.denominator ∧ v * interval.denominator ≤ interval.high
  else interval.low < v * interval.denominator ∧ v * interval.denominator < interval.high

/-- The powers of ten of a grid below and above the point make up the grid. -/
theorem ten_zpow_mul (grid : ℤ) :
    (10 : ℝ) ^ grid * 10 ^ (-grid).toNat = 10 ^ grid.toNat := by
  have hsplit : (grid.toNat : ℤ) = grid + (-grid).toNat := by omega
  rw [← zpow_natCast, ← zpow_natCast, ← zpow_add₀ (by norm_num), ← hsplit]

/-- An interval holds a multiple of a power of ten exactly if it contains the number. -/
theorem holds_iff (interval : Interval) (grid : ℤ) (k : ℕ) :
    interval.holds (10 ^ (-grid).toNat) (k * (interval.denominator * 10 ^ grid.toNat)) = true ↔
      interval.Contains (k * 10 ^ grid) := by
  have hunit : (0 : ℝ) < 10 ^ (-grid).toNat := by positivity
  have hscaled : ((k * (interval.denominator * 10 ^ grid.toNat) : ℕ) : ℝ) =
      k * 10 ^ grid * interval.denominator * 10 ^ (-grid).toNat := by
    push_cast
    rw [← ten_zpow_mul]
    ring
  have hlow (n : ℕ) : n * 10 ^ (-grid).toNat ≤ k * (interval.denominator * 10 ^ grid.toNat) ↔
      (n : ℝ) ≤ k * 10 ^ grid * interval.denominator := by
    rw [← Nat.cast_le (α := ℝ), hscaled, Nat.cast_mul, Nat.cast_pow, Nat.cast_ofNat,
      mul_le_mul_iff_of_pos_right hunit]
  have hhigh (n : ℕ) : k * (interval.denominator * 10 ^ grid.toNat) ≤ n * 10 ^ (-grid).toNat ↔
      k * 10 ^ grid * interval.denominator ≤ (n : ℝ) := by
    rw [← Nat.cast_le (α := ℝ), hscaled, Nat.cast_mul, Nat.cast_pow, Nat.cast_ofNat,
      mul_le_mul_iff_of_pos_right hunit]
  unfold holds Contains
  split <;>
    simp only [Bool.and_eq_true, decide_eq_true_eq, ← not_le, hlow, hhigh]

/-- What is found on a grid is in the interval. -/
theorem contains_of_onGrid? {interval : Interval} {grid : ℤ} {k : ℕ}
    (h : interval.onGrid? grid = some k) : interval.Contains (k * 10 ^ grid) := by
  rw [← holds_iff]
  unfold onGrid? at h
  dsimp only at h
  split at h
  · next hbelow =>
    split at h
    · next habove =>
      rw [Bool.and_eq_true] at habove
      exact Option.some.inj h ▸ habove.1
    · exact Option.some.inj h ▸ hbelow
  · split at h
    · next habove => exact Option.some.inj h ▸ habove
    · cases h

/-- The first multiple of the step above the value of the interval is in the interval if the grid is
fine enough. -/
theorem holds_next {interval : Interval} {grid : ℤ} (hdenominator : 0 < interval.denominator)
    (hlow : interval.low ≤ interval.value)
    (hfine : interval.value + interval.denominator * (10 : ℝ) ^ grid < interval.high) :
    let unit := 10 ^ (-grid).toNat
    let step := interval.denominator * 10 ^ grid.toNat
    interval.holds unit ((interval.value * unit / step + 1) * step) = true := by
  intro unit step
  have hunit : 0 < unit := by positivity
  have hpos : 0 < step := by positivity
  have hgreater : interval.value * unit < (interval.value * unit / step + 1) * step := by
    rw [mul_comm (_ / step + 1)]
    exact Nat.lt_mul_div_succ _ hpos
  have hleast : (interval.value * unit / step + 1) * step ≤ interval.value * unit + step := by
    rw [add_mul, one_mul]
    exact Nat.add_le_add_right (Nat.div_mul_le_self _ step) step
  have hlower : interval.low * unit ≤ interval.value * unit := Nat.mul_le_mul_right _ hlow
  have hupper : interval.value * unit + step < interval.high * unit := by
    have hscaled := mul_lt_mul_of_pos_right hfine (by exact_mod_cast hunit : (0 : ℝ) < (unit : ℕ))
    simp only [unit, Nat.cast_pow, Nat.cast_ofNat] at hscaled
    rw [add_mul, mul_assoc, ten_zpow_mul] at hscaled
    exact_mod_cast hscaled
  unfold holds
  split
  · rw [Bool.and_eq_true, decide_eq_true_eq, decide_eq_true_eq]
    omega
  · rw [Bool.and_eq_true, decide_eq_true_eq, decide_eq_true_eq]
    omega

/-- A grid that is fine enough has a point in the interval. -/
theorem exists_onGrid? {interval : Interval} {grid : ℤ} (hdenominator : 0 < interval.denominator)
    (hlow : interval.low ≤ interval.value)
    (hfine : interval.value + interval.denominator * (10 : ℝ) ^ grid < interval.high) :
    ∃ k, interval.onGrid? grid = some k := by
  rw [← Option.ne_none_iff_exists']
  unfold onGrid?
  dsimp only
  split
  · split <;> exact Option.some_ne_none _
  · split
    · exact Option.some_ne_none _
    · next hnothing => exact absurd (holds_next hdenominator hlow hfine) hnothing

/-- If a grid among those that are tried has a point in the interval, the decimal that is found is
in the interval. -/
theorem contains_shortestFrom {interval : Interval} {grids : ℕ} {grid fine : ℤ} {k : ℕ}
    (hfine : interval.onGrid? fine = some k) (hle : fine ≤ grid) (hlt : grid < fine + grids) :
    interval.Contains (interval.shortestFrom grids grid).value := by
  induction grids generalizing grid with
  | zero => omega
  | succ grids ih =>
    unfold shortestFrom
    split
    · next coefficient hfound =>
      have hvalue : (((⟨coefficient, grid⟩ : Decimal).value : ℚ) : ℝ) =
          coefficient * 10 ^ grid := by
        rw [Decimal.value]
        push_cast
        rfl
      rw [hvalue]
      exact contains_of_onGrid? hfound
    · next hnone =>
      have hne : fine ≠ grid := fun heq => by
        rw [heq, hnone] at hfine
        cases hfine
      exact ih (by omega) (by omega)

end Interval

end ColorWords
