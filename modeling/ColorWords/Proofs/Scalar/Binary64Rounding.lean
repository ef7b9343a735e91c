import ColorWords.Proofs.Scalar.Binary64Order

/-!
# Rounding of 64-bit floats

A float results from rounding an exact number to a grid whose step is a power of two. Rounding to
a grid never crosses a point of the grid, and the numbers that floats can represent are points of
the grid wherever it is used. So a result of float arithmetic lies on the same side of every
representable number as the exact result does. This is all that comparisons need of rounding;
which neighbor is taken does not matter to them.
-/

namespace ColorWords.Binary64

open Float.Model Float.Model.UnpackedFloat

/-! ## Significands -/

/-- The significand of an extended one, rounded up. -/
def ceiling (em : ExtendedMantissa) : ℕ :=
  em.mantissa + if em.roundBit || em.stickyBit then 1 else 0

/-- Rounding to nearest stays below rounding up. -/
theorem roundedMantissa_le_ceiling (em : ExtendedMantissa) : em.roundedMantissa ≤ ceiling em := by
  obtain ⟨m, roundBit, stickyBit⟩ := em
  cases roundBit <;> cases stickyBit <;>
    simp [ceiling, ExtendedMantissa.roundedMantissa, ExtendedMantissa.accuracy,
      Accuracy.roundToNearestEven]
  omega

/-- Halving an extended significand halves its bounds. -/
theorem ceiling_shiftRightOne_le {em : ExtendedMantissa} {bound : ℕ}
    (h : ceiling em ≤ 2 * bound) : ceiling em.shiftRightOne ≤ bound := by
  obtain ⟨m, roundBit, stickyBit⟩ := em
  rcases Nat.mod_two_eq_zero_or_one m with hm | hm <;> cases roundBit <;> cases stickyBit <;>
    simp [ceiling, ExtendedMantissa.shiftRightOne, hm] at h ⊢ <;> omega

/-- What halving keeps of an extended significand and a number is kept by shifting to a coarser
grid. -/
theorem shiftRight_of_shiftRightOne {P : ExtendedMantissa → ℝ → Prop}
    (hhalf : ∀ em v, P em v → P em.shiftRightOne (v / 2)) {em : ExtendedMantissa} {e t : ℤ} {v : ℝ}
    (h : P em (v / 2 ^ e)) (het : e ≤ t) : P (em >>> (t - e).toNat) (v / 2 ^ t) := by
  have hshift (n : ℕ) : P (em >>> n) (v / 2 ^ e / 2 ^ n) := by
    induction n with
    | zero =>
      rw [pow_zero, div_one]
      exact h
    | succ n ih =>
      rw [pow_succ, ← div_div]
      exact hhalf _ _ ih
  have hexponent : e + ((t - e).toNat : ℤ) = t := by omega
  have hgrid := hshift (t - e).toNat
  rwa [div_div, ← zpow_natCast, ← zpow_add₀ two_ne_zero, hexponent] at hgrid

/-- The significand is the exact number rounded down, and rounding it up goes no further than
rounding up the exact number. -/
structure Encloses (em : ExtendedMantissa) (v : ℝ) : Prop where
  le_iff (n : ℕ) : (n : ℝ) ≤ v ↔ n ≤ em.mantissa
  ceiling_le (n : ℕ) : v ≤ n → ceiling em ≤ n

/-- An exact significand encloses itself. -/
theorem encloses_exact (m : ℕ) : Encloses (.ofMantissaAndAccuracy m .exact) m where
  le_iff n := Nat.cast_le
  ceiling_le n h := by
    have hle : m ≤ n := by exact_mod_cast h
    simpa [ceiling, ExtendedMantissa.ofMantissaAndAccuracy] using hle

namespace Encloses

variable {em : ExtendedMantissa} {v : ℝ}

/-- Halving an extended significand halves what it encloses. -/
theorem shiftRightOne (h : Encloses em v) : Encloses em.shiftRightOne (v / 2) where
  le_iff n := by
    have hdouble := h.le_iff (2 * n)
    push_cast at hdouble
    change _ ↔ n ≤ em.mantissa / 2
    rw [le_div_iff₀ two_pos, mul_comm, hdouble]
    omega
  ceiling_le n hn := ceiling_shiftRightOne_le (h.ceiling_le (2 * n) (by push_cast; linarith))

/-- Shifting an extended significand to a coarser grid keeps what it encloses. -/
theorem shiftRight {e t : ℤ} (h : Encloses em (v / 2 ^ e)) (het : e ≤ t) :
    Encloses (em >>> (t - e).toNat) (v / 2 ^ t) :=
  shiftRight_of_shiftRightOne (fun _ _ h => h.shiftRightOne) h het

/-- Rounding does not go below a natural number that is not above. -/
theorem le_rounded (h : Encloses em v) {n : ℕ} (hn : (n : ℝ) ≤ v) : n ≤ em.roundedMantissa := by
  refine ((h.le_iff n).mp hn).trans ?_
  obtain ⟨m, roundBit, stickyBit⟩ := em
  cases roundBit <;> cases stickyBit <;>
    simp [ExtendedMantissa.roundedMantissa, ExtendedMantissa.accuracy, Accuracy.roundToNearestEven]

/-- Rounding does not go above a natural number that is not below. -/
theorem rounded_le (h : Encloses em v) {n : ℕ} (hn : v ≤ n) : em.roundedMantissa ≤ n :=
  (roundedMantissa_le_ceiling em).trans (h.ceiling_le n hn)

end Encloses

/-! ## Representable numbers -/

/-- The number is a significand of at most 53 bits, up to sign, times a power of two. -/
def IsRepresentable (g : ℝ) : Prop :=
  ∃ (n : ℤ) (k : ℤ), |n| < 2 ^ 53 ∧ -1074 ≤ k ∧ g = n * 2 ^ k

/-- The negative of a representable number is representable. -/
theorem IsRepresentable.neg {g : ℝ} (h : IsRepresentable g) : IsRepresentable (-g) := by
  obtain ⟨n, k, hn, hk, rfl⟩ := h
  exact ⟨-n, k, by rwa [abs_neg], hk, by push_cast; ring⟩

/-- No representable number separates the two. -/
def NoneBetween (v r : ℝ) : Prop :=
  ∀ g, IsRepresentable g → (v ≤ g → r ≤ g) ∧ (g ≤ v → g ≤ r)

/-- The same goes for the negatives. -/
theorem NoneBetween.neg {v r : ℝ} (h : NoneBetween v r) : NoneBetween (-v) (-r) := by
  intro g hg
  have hneg := h (-g) hg.neg
  exact ⟨fun hle => by linarith [hneg.2 (by linarith)],
    fun hle => by linarith [hneg.1 (by linarith)]⟩

/-- Powers of two on both sides of a number have their exponents in order. -/
theorem exponent_lt_of_between {v : ℝ} {i j : ℤ} (hle : 2 ^ i ≤ v) (hlt : v < 2 ^ j) : i < j :=
  (zpow_lt_zpow_iff_right₀ one_lt_two).mp (hle.trans_lt hlt)

/-- The grid with step `2 ^ t` is the one to round the number to: it is as fine as floats of this
size are, unless it is the finest one. -/
structure IsGridOf (t : ℤ) (v : ℝ) : Prop where
  finest : -1074 ≤ t
  lt : v < 2 ^ (53 + t)
  le : t = -1074 ∨ 2 ^ (52 + t) ≤ v

/-- A representable number is on the grid, or else it is below all numbers that are rounded to
the grid. -/
theorem IsGridOf.cases {t : ℤ} {v g : ℝ} (h : IsGridOf t v) (hg : IsRepresentable g) :
    (∃ n : ℤ, g = n * 2 ^ t) ∨ g < 2 ^ (52 + t) ∧ 2 ^ (52 + t) ≤ v := by
  obtain ⟨n, k, hn, hk, rfl⟩ := hg
  by_cases hkt : t ≤ k
  · refine Or.inl ⟨n * 2 ^ (k - t).toNat, ?_⟩
    have hsplit : (2 : ℝ) ^ k = 2 ^ (k - t).toNat * 2 ^ t := by
      rw [← zpow_natCast, ← zpow_add₀ two_ne_zero]
      congr 1
      omega
    rw [hsplit]
    push_cast
    ring
  · have hcoarse := h.le.resolve_left (by omega)
    refine Or.inr ⟨?_, hcoarse⟩
    have hpow : (0 : ℝ) < 2 ^ k := zpow_pos two_pos k
    have hcast : (n : ℝ) < 2 ^ 53 := by
      have hlt := (le_abs_self n).trans_lt hn
      exact_mod_cast hlt
    calc (n : ℝ) * 2 ^ k < 2 ^ 53 * 2 ^ k := mul_lt_mul_of_pos_right hcast hpow
      _ = 2 ^ (53 + k) := by rw [zpow_add₀ two_ne_zero]; norm_num
      _ ≤ 2 ^ (52 + t) := zpow_le_zpow_right₀ one_le_two (by omega)

/-- Rounding to the grid crosses no representable number. -/
theorem Encloses.noneBetween {em : ExtendedMantissa} {t : ℤ} {v : ℝ} (hv : 0 ≤ v)
    (hgrid : IsGridOf t v) (h : Encloses em (v / 2 ^ t)) :
    NoneBetween v (em.roundedMantissa * 2 ^ t) := by
  have hpow : (0 : ℝ) < 2 ^ t := zpow_pos two_pos t
  intro g hg
  constructor
  · intro hvg
    rcases hgrid.cases hg with ⟨n, rfl⟩ | ⟨hbelow, hcoarse⟩
    · obtain ⟨n, rfl⟩ := Int.eq_ofNat_of_zero_le (a := n) (by
        have hn : (0 : ℝ) ≤ n * 2 ^ t := hv.trans hvg
        have := nonneg_of_mul_nonneg_left hn hpow
        exact_mod_cast this)
      have hle := h.rounded_le (n := n) ((div_le_iff₀ hpow).mpr (by exact_mod_cast hvg))
      have hcast : (em.roundedMantissa : ℝ) ≤ n := by exact_mod_cast hle
      exact_mod_cast mul_le_mul_of_nonneg_right hcast hpow.le
    · linarith
  · intro hgv
    rcases hgrid.cases hg with ⟨n, rfl⟩ | ⟨hbelow, hcoarse⟩
    · rcases le_or_gt 0 n with hn | hn
      · obtain ⟨n, rfl⟩ := Int.eq_ofNat_of_zero_le hn
        have hle := h.le_rounded (n := n) ((le_div_iff₀ hpow).mpr (by exact_mod_cast hgv))
        have hcast : (n : ℝ) ≤ em.roundedMantissa := by exact_mod_cast hle
        exact_mod_cast mul_le_mul_of_nonneg_right hcast hpow.le
      · have hneg : (n : ℝ) * 2 ^ t ≤ 0 :=
          mul_nonpos_of_nonpos_of_nonneg (by exact_mod_cast hn.le) hpow.le
        exact hneg.trans (by positivity)
    · have hle : 2 ^ 52 ≤ em.roundedMantissa := by
        refine h.le_rounded ((le_div_iff₀ hpow).mpr ?_)
        rw [zpow_add₀ two_ne_zero] at hcoarse
        exact_mod_cast hcoarse
      have hcast : (2 : ℝ) ^ 52 ≤ em.roundedMantissa := by exact_mod_cast hle
      have hround := mul_le_mul_of_nonneg_right hcast hpow.le
      rw [zpow_add₀ two_ne_zero] at hbelow
      exact hbelow.le.trans (by exact_mod_cast hround)

/-! ## Canonical floats -/

/-- The number with the given sign and magnitude. -/
noncomputable def withSign (sign : Sign) (v : ℝ) : ℝ :=
  match sign with
  | .positive => v
  | .negative => -v

/-- The number that a finite float stands for. -/
noncomputable def value : UnpackedFloat → ℝ
  | .finite sign m e _ => withSign sign (m * 2 ^ e)
  | _ => 0

/-- The float is finite, and its significand has 53 bits unless its exponent is the least. -/
def IsCanonical : UnpackedFloat → Prop
  | .zero _ => True
  | .finite _ m e _ => m < 2 ^ 53 ∧ -1074 ≤ e ∧ (2 ^ 52 ≤ m ∨ e = -1074)
  | _ => False

/-- Both zeros stand for zero. -/
@[simp] theorem value_zero (sign : Sign) : value (.zero sign) = 0 := rfl

/-- A canonical float is a zero or another finite float. -/
theorem IsCanonical.zero_or_finite {u : UnpackedFloat} (h : IsCanonical u) :
    (∃ sign, u = .zero sign) ∨ ∃ sign m e hm, u = .finite sign m e hm := by
  cases u with
  | zero sign => exact Or.inl ⟨sign, rfl⟩
  | finite sign m e hm => exact Or.inr ⟨sign, m, e, hm, rfl⟩
  | infinity => exact h.elim
  | notANumber => exact h.elim

/-- The float is finite, and no representable number separates it from the exact number. -/
structure IsRounded (v : ℝ) (u : UnpackedFloat) : Prop where
  canonical : IsCanonical u
  noneBetween : NoneBetween v (value u)

/-- Signs are applied to both sides. -/
theorem NoneBetween.withSign {v r : ℝ} (h : NoneBetween v r) (sign : Sign) :
    NoneBetween (withSign sign v) (withSign sign r) := by
  cases sign
  · exact h.neg
  · exact h

/-- The exponent of the format. -/
theorem targetExponent_eq (m : ℕ) (e : ℤ) :
    Format.binary64.targetExponent (totalExponent m e) = max (m.log2 + e - 52) (-1074) := by
  simp only [Format.targetExponent, totalExponent, Format.mantissaBits, Format.minExponent]
  norm_num
  omega

/-- The exponent of the format is that of the grid. -/
theorem isGridOf_targetExponent {m : ℕ} {e : ℤ} {acc : Accuracy} {v : ℝ}
    (h : Encloses (.ofMantissaAndAccuracy m acc) (v / 2 ^ e))
    (he : e ≤ Format.binary64.targetExponent (totalExponent m e)) :
    IsGridOf (Format.binary64.targetExponent (totalExponent m e)) v := by
  rw [targetExponent_eq] at he ⊢
  have hpow : (0 : ℝ) < 2 ^ e := zpow_pos two_pos e
  have hmantissa : (ExtendedMantissa.ofMantissaAndAccuracy m acc).mantissa = m := by
    cases acc with
    | exact => rfl
    | inexact order => cases order <;> rfl
  refine ⟨le_max_right _ _, ?_, ?_⟩
  · have hlt : v / 2 ^ e < (m + 1 : ℕ) := by
      by_contra hle
      have hsucc := (h.le_iff (m + 1)).mp (not_lt.mp hle)
      omega
    have hbits : m + 1 ≤ 2 ^ (m.log2 + 1) := Nat.lt_log2_self
    have hcast : ((m + 1 : ℕ) : ℝ) ≤ 2 ^ (m.log2 + 1) := by exact_mod_cast hbits
    rw [div_lt_iff₀ hpow] at hlt
    calc v < (m + 1 : ℕ) * 2 ^ e := hlt
      _ ≤ 2 ^ (m.log2 + 1) * 2 ^ e := mul_le_mul_of_nonneg_right hcast hpow.le
      _ = 2 ^ ((m.log2 + 1 : ℕ) + e) := by rw [zpow_add₀ two_ne_zero, zpow_natCast]
      _ ≤ 2 ^ (53 + max (m.log2 + e - 52) (-1074)) := zpow_le_zpow_right₀ one_le_two (by omega)
  · rcases le_or_gt (m.log2 + e - 52 : ℤ) (-1074) with hfine | hcoarse
    · exact Or.inl (max_eq_right hfine)
    · rw [max_eq_left hcoarse.le] at he ⊢
      have hm : m ≠ 0 := by
        rintro rfl
        simp at he
      have hbits : ((2 ^ m.log2 : ℕ) : ℝ) ≤ m := by exact_mod_cast Nat.log2_self_le hm
      have hle : (m : ℝ) ≤ v / 2 ^ e := (h.le_iff m).mpr hmantissa.ge
      rw [le_div_iff₀ hpow] at hle
      refine Or.inr ?_
      calc (2 : ℝ) ^ (52 + (m.log2 + e - 52)) = (2 ^ m.log2 : ℕ) * 2 ^ e := by
            rw [show 52 + (m.log2 + e - 52) = (m.log2 : ℤ) + e by ring, zpow_add₀ two_ne_zero]
            norm_num
        _ ≤ m * 2 ^ e := mul_le_mul_of_nonneg_right hbits hpow.le
        _ ≤ v := hle

/-- A significand that fits is not shifted. -/
theorem shiftToTargetExponent_of_lt {m : ℕ} {e : ℤ} (hm : m < 2 ^ 53) (he : -1074 ≤ e) :
    shiftToTargetExponent Format.binary64 m e .exact = (⟨m, false, false⟩, e) := by
  have hlog : m.log2 ≤ 52 := by
    by_cases hzero : m = 0
    · simp [hzero]
    · have := (Nat.log2_lt hzero).mpr hm
      omega
  have hshift : (max (m.log2 + e - 52) (-1074) - e).toNat = 0 := by omega
  rw [shiftToTargetExponent, targetExponent_eq, shiftToExponent, hshift]
  simp only [Nat.cast_zero, add_zero]
  rfl

/-- A significand that has become one bit too long is shifted by this bit. -/
theorem shiftToTargetExponent_carry {e : ℤ} (he : -1074 ≤ e) :
    shiftToTargetExponent Format.binary64 (2 ^ 53) e .exact = (⟨2 ^ 52, false, false⟩, e + 1) := by
  have hshift : (max (((2 ^ 53 : ℕ).log2 : ℤ) + e - 52) (-1074) - e).toNat = 1 := by
    rw [Nat.log2_two_pow]
    omega
  rw [shiftToTargetExponent, targetExponent_eq, shiftToExponent, hshift]
  rfl

/-- Rounding leads to a canonical float, which stands for the extended significand rounded on the
grid. -/
theorem roundWithAccuracy_eq {m : ℕ} {e : ℤ} {acc : Accuracy} {v : ℝ}
    (h : Encloses (.ofMantissaAndAccuracy m acc) (v / 2 ^ e))
    (he : e ≤ Format.binary64.targetExponent (totalExponent m e)) (sign : Sign) :
    ∃ t, e ≤ t ∧ IsGridOf t v ∧
      IsCanonical (roundWithAccuracy Format.binary64 sign m e acc) ∧
      value (roundWithAccuracy Format.binary64 sign m e acc) =
        withSign sign
          ((ExtendedMantissa.ofMantissaAndAccuracy m acc >>> (t - e).toNat).roundedMantissa *
            2 ^ t) := by
  have hgrid := isGridOf_targetExponent h he
  refine ⟨Format.binary64.targetExponent (totalExponent m e), he, hgrid, ?_⟩
  generalize htarget : Format.binary64.targetExponent (totalExponent m e) = t at he hgrid
  have hpow : (0 : ℝ) < 2 ^ t := zpow_pos two_pos t
  have hem := h.shiftRight he
  have hfirst : shiftToTargetExponent Format.binary64 m e acc =
      (ExtendedMantissa.ofMantissaAndAccuracy m acc >>> (t - e).toNat, t) := by
    have hexponent : e + ((t - e).toNat : ℤ) = t := by omega
    rw [shiftToTargetExponent, htarget, shiftToExponent, hexponent]
  unfold roundWithAccuracy
  rw [hfirst]
  dsimp only
  generalize ExtendedMantissa.ofMantissaAndAccuracy m acc >>> (t - e).toNat = em at hem
  have hsplit (k : ℤ) : (2 : ℝ) ^ (k + t) / 2 ^ t = 2 ^ k := by
    rw [zpow_add₀ two_ne_zero, mul_div_cancel_right₀ _ hpow.ne']
  have hle : em.roundedMantissa ≤ 2 ^ 53 := by
    refine hem.rounded_le ?_
    have hlt := div_lt_div_of_pos_right hgrid.lt hpow
    rw [hsplit] at hlt
    exact_mod_cast hlt.le
  have hbits : 2 ^ 52 ≤ em.roundedMantissa ∨ t = -1074 := by
    refine hgrid.le.symm.imp_left fun hcoarse => hem.le_rounded ?_
    have hge := div_le_div_of_nonneg_right hcoarse hpow.le
    rw [hsplit] at hge
    exact_mod_cast hge
  rcases hle.lt_or_eq with hfits | hcarry
  · simp only [shiftToTargetExponent_of_lt hfits hgrid.finest]
    split
    · next hzero =>
      refine ⟨trivial, ?_⟩
      rw [hzero]
      cases sign <;> simp [value, withSign]
    · exact ⟨⟨hfits, hgrid.finest, hbits⟩, rfl⟩
  · rw [hcarry]
    simp only [shiftToTargetExponent_carry hgrid.finest]
    split
    · next hzero => simp at hzero
    · have hsame : ((2 ^ 52 : ℕ) : ℝ) * 2 ^ (t + 1) = (2 ^ 53 : ℕ) * 2 ^ t := by
        rw [zpow_add₀ two_ne_zero]
        push_cast
        ring
      have hfinest := hgrid.finest
      exact ⟨⟨by omega, by omega, Or.inl le_rfl⟩, by rw [value, hsame]⟩

/-- Rounding leads to a canonical float that no representable number separates from the exact
number. -/
theorem isRounded_roundWithAccuracy {m : ℕ} {e : ℤ} {acc : Accuracy} {v : ℝ} (hv : 0 ≤ v)
    (h : Encloses (.ofMantissaAndAccuracy m acc) (v / 2 ^ e))
    (he : e ≤ Format.binary64.targetExponent (totalExponent m e)) (sign : Sign) :
    IsRounded (withSign sign v) (roundWithAccuracy Format.binary64 sign m e acc) := by
  obtain ⟨t, het, hgrid, hcanonical, hvalue⟩ := roundWithAccuracy_eq h he sign
  refine ⟨hcanonical, ?_⟩
  rw [hvalue]
  exact ((h.shiftRight het).noneBetween hv hgrid).withSign sign

end ColorWords.Binary64
