import ColorWords.Proofs.Scalar.Binary64Rounding

/-!
# Rounding to the nearest float

Sums of floats are exact numbers rounded to 53 significant bits, ties to even. The bits that do not
fit are reduced to a bit worth one half and a note whether there is more. This tells on which side
of the middle between two points of the grid the exact number is. What is lost by rounding a sum
of two representable numbers is representable itself, which is what a compensated sum builds on.
-/

namespace ColorWords.Binary64

open Float.Model Float.Model.UnpackedFloat

/-! ## Significands -/

/-- The number that a significand and the bit worth one half make up. -/
noncomputable def kept (em : ExtendedMantissa) : ℝ := em.mantissa + em.roundBit.toNat / 2

/-- The number exceeds what is kept of it by less than one half, and the last bit tells whether it
does so at all. -/
structure Splits (em : ExtendedMantissa) (v : ℝ) : Prop where
  lt : v < kept em + 1 / 2
  exact : em.stickyBit = false → v = kept em
  inexact : em.stickyBit = true → kept em < v

/-- An exact significand is all of the number. -/
theorem splits_exact (m : ℕ) : Splits (.ofMantissaAndAccuracy m .exact) m := by
  constructor <;> simp [kept, ExtendedMantissa.ofMantissaAndAccuracy]

namespace Splits

variable {em : ExtendedMantissa} {v : ℝ}

/-- Halving an extended significand halves the number. -/
theorem shiftRightOne (h : Splits em v) : Splits em.shiftRightOne (v / 2) := by
  obtain ⟨m, roundBit, stickyBit⟩ := em
  obtain ⟨hlt, hexact, hinexact⟩ := h
  have hhalves : (m : ℝ) = 2 * (m / 2 : ℕ) + (m % 2 : ℕ) := by
    exact_mod_cast (Nat.div_add_mod m 2).symm
  simp only [kept, hhalves] at hlt hexact hinexact
  rcases Nat.mod_two_eq_zero_or_one m with hm | hm <;> cases roundBit <;> cases stickyBit <;>
    simp [hm] at hlt hexact hinexact <;> constructor <;>
    simp [kept, ExtendedMantissa.shiftRightOne, hm] <;> linarith

/-- Shifting an extended significand to a coarser grid keeps what it is a part of. -/
theorem shiftRight {e t : ℤ} (h : Splits em (v / 2 ^ e)) (het : e ≤ t) :
    Splits (em >>> (t - e).toNat) (v / 2 ^ t) :=
  shiftRight_of_shiftRightOne (fun _ _ h => h.shiftRightOne) h het

/-- The significand is rounded to the nearest integer, and to the even one from the middle. -/
theorem rounded (h : Splits em v) :
    |v - em.roundedMantissa| ≤ 1 / 2 ∧
      (|v - em.roundedMantissa| = 1 / 2 → Even em.roundedMantissa) := by
  obtain ⟨m, roundBit, stickyBit⟩ := em
  obtain ⟨hlt, hexact, hinexact⟩ := h
  cases roundBit <;> cases stickyBit <;>
    simp [kept, ExtendedMantissa.roundedMantissa, ExtendedMantissa.accuracy,
      Accuracy.roundToNearestEven] at hlt hexact hinexact ⊢
  · simp [hexact]
  · rw [abs_of_pos (by linarith)]
    exact ⟨by linarith, fun heq => by linarith⟩
  · have heven : Even (m + m % 2) := Nat.even_iff.mpr (by omega)
    refine ⟨?_, fun _ => heven⟩
    rcases Nat.mod_two_eq_zero_or_one m with hm | hm <;> norm_num [hm, hexact]
  · rw [abs_of_neg (by linarith)]
    exact ⟨by linarith, fun heq => by linarith⟩

end Splits

/-! ## Points of a grid -/

/-- The multiples of a power of two. -/
noncomputable def grid (t : ℤ) : AddSubgroup ℝ := AddSubgroup.zmultiples (2 ^ t)

/-- Multiples are integers times the step. -/
theorem mem_grid {t : ℤ} {x : ℝ} : x ∈ grid t ↔ ∃ n : ℤ, x = n * 2 ^ t := by
  simp only [grid, AddSubgroup.mem_zmultiples_iff, zsmul_eq_mul, eq_comm]

/-- A coarser grid is part of a finer one. -/
theorem grid_le {s t : ℤ} (h : s ≤ t) : grid t ≤ grid s := by
  refine (AddSubgroup.zmultiples_le_of_mem (mem_grid.mpr ⟨2 ^ (t - s).toNat, ?_⟩))
  rw [Int.cast_pow, Int.cast_ofNat, ← zpow_natCast, ← zpow_add₀ two_ne_zero]
  congr 1
  omega

/-- A multiple of a power of two is representable if it has 53 bits, or if it is the first one that
has more. -/
theorem isRepresentable_of_mem_grid {k : ℤ} {x : ℝ} (hk : -1074 ≤ k) (hx : x ∈ grid k)
    (hle : |x| ≤ 2 ^ (53 + k)) : IsRepresentable x := by
  obtain ⟨n, rfl⟩ := mem_grid.mp hx
  have hpow : (0 : ℝ) < 2 ^ k := zpow_pos two_pos k
  have hn : |n| ≤ 2 ^ 53 := by
    rw [abs_mul, abs_of_pos hpow, zpow_add₀ two_ne_zero, mul_le_mul_iff_of_pos_right hpow] at hle
    exact_mod_cast hle
  rcases hn.lt_or_eq with hlt | heq
  · exact ⟨n, k, hlt, hk, rfl⟩
  · obtain ⟨m, rfl⟩ : (2 : ℤ) ∣ n := (dvd_abs 2 n).mp (heq ▸ by norm_num)
    refine ⟨m, k + 1, ?_, by omega, ?_⟩
    · rw [abs_mul] at heq
      norm_num at heq ⊢
      omega
    · rw [zpow_add₀ two_ne_zero]
      push_cast
      ring

/-- Powers of two are representable. -/
theorem isRepresentable_two_zpow {k : ℤ} (hk : -1074 ≤ k) : IsRepresentable (2 ^ k) :=
  ⟨1, k, by norm_num, hk, by simp⟩

/-- A representable number is on a grid on which it has 53 bits. -/
theorem IsRepresentable.exists_grid {g : ℝ} (h : IsRepresentable g) :
    ∃ k : ℤ, -1074 ≤ k ∧ g ∈ grid k ∧ |g| ≤ (2 ^ 53 - 1) * 2 ^ k := by
  obtain ⟨n, k, hn, hk, rfl⟩ := h
  have hpow : (0 : ℝ) < 2 ^ k := zpow_pos two_pos k
  refine ⟨k, hk, mem_grid.mpr ⟨n, rfl⟩, ?_⟩
  have hle : |n| ≤ 2 ^ 53 - 1 := by omega
  rw [abs_mul, abs_of_pos hpow, mul_le_mul_iff_of_pos_right hpow]
  exact_mod_cast hle

/-- Representable numbers are on the finest grid. -/
theorem IsRepresentable.mem_grid {g : ℝ} (h : IsRepresentable g) : g ∈ grid (-1074) := by
  obtain ⟨k, hk, hg, -⟩ := h.exists_grid
  exact grid_le hk hg

/-! ## Rounded numbers -/

/-- The number is rounded to the nearest multiple of the step of its grid, and to the even one of
two. Multiples of the step have 53 bits around the number, or less if no grid is finer. -/
structure IsNearestOn (t n : ℤ) (v : ℝ) : Prop where
  isGridOf : IsGridOf t |v|
  le : |v - n * 2 ^ t| ≤ 2 ^ t / 2
  even : |v - n * 2 ^ t| = 2 ^ t / 2 → Even n

/-- The number rounded to 53 significant bits, ties to even, is the other one. -/
def RoundsTo (v r : ℝ) : Prop := ∃ t n : ℤ, IsNearestOn t n v ∧ r = n * 2 ^ t

/-- The grid of a number is unique. -/
theorem IsGridOf.unique {s t : ℤ} {v : ℝ} (hs : IsGridOf s v) (ht : IsGridOf t v) : s = t := by
  have hle {s t : ℤ} (hs : IsGridOf s v) (ht : IsGridOf t v) : s ≤ t := by
    rcases hs.le with rfl | hcoarse
    · exact ht.finest
    · have := exponent_lt_of_between hcoarse ht.lt
      omega
  exact le_antisymm (hle hs ht) (hle ht hs)

/-- Rounding goes to the nearest multiple of the step. -/
theorem IsNearestOn.nearest {t n : ℤ} {v g : ℝ} (h : IsNearestOn t n v) (hg : g ∈ grid t) :
    |v - n * 2 ^ t| ≤ |v - g| := by
  obtain ⟨m, rfl⟩ := mem_grid.mp hg
  have hpow : (0 : ℝ) < 2 ^ t := zpow_pos two_pos t
  by_cases hne : m = n
  · rw [hne]
  · have hapart : (1 : ℝ) ≤ |(n - m : ℤ)| := by
      exact_mod_cast Int.one_le_abs (sub_ne_zero.mpr fun heq => hne heq.symm)
    have hstep : 2 ^ t ≤ |n * 2 ^ t - m * (2 : ℝ) ^ t| := by
      rw [← sub_mul, abs_mul, abs_of_pos hpow]
      push_cast at hapart
      nlinarith
    have htriangle := abs_sub_le (n * (2 : ℝ) ^ t) v (m * 2 ^ t)
    rw [abs_sub_comm _ v] at htriangle
    linarith [h.le]

/-- Two multiples are at the same distance only if the number is in the middle between them. -/
theorem IsNearestOn.unique {t n m : ℤ} {v : ℝ} (hn : IsNearestOn t n v)
    (hm : IsNearestOn t m v) : n = m := by
  have hpow : (0 : ℝ) < 2 ^ t := zpow_pos two_pos t
  have hle {n m : ℤ} (hn : IsNearestOn t n v) (hm : IsNearestOn t m v) : n ≤ m := by
    by_contra hlt
    have hstep : (m + 1 : ℝ) * 2 ^ t ≤ n * 2 ^ t :=
      mul_le_mul_of_nonneg_right (by exact_mod_cast not_le.mp hlt) hpow.le
    have hbelow := abs_le.mp hn.le
    have habove := abs_le.mp hm.le
    have hmiddle : v - n * 2 ^ t = -(2 ^ t / 2) ∧ v - m * 2 ^ t = 2 ^ t / 2 := by
      constructor <;> linarith
    have hevenLeft := hn.even (by rw [hmiddle.1, abs_neg, abs_of_pos (by linarith)])
    have hevenRight := hm.even (by rw [hmiddle.2, abs_of_pos (by linarith)])
    have hnext : (n : ℝ) = m + 1 := mul_right_cancel₀ hpow.ne' (by linarith)
    have hnext : n = m + 1 := by exact_mod_cast hnext
    rw [hnext, Int.even_add_one] at hevenLeft
    exact hevenLeft hevenRight
  exact le_antisymm (hle hn hm) (hle hm hn)

namespace RoundsTo

variable {p q r v : ℝ}

/-- A number is rounded to one number only. -/
theorem unique {r' : ℝ} (h : RoundsTo v r) (h' : RoundsTo v r') : r = r' := by
  obtain ⟨t, n, hn, rfl⟩ := h
  obtain ⟨s, m, hm, rfl⟩ := h'
  obtain rfl := hn.isGridOf.unique hm.isGridOf
  rw [hn.unique hm]

/-- The negated number is rounded to the negated one. -/
theorem neg (h : RoundsTo v r) : RoundsTo (-v) (-r) := by
  obtain ⟨t, n, ⟨hgrid, hle, heven⟩, rfl⟩ := h
  have hdistance : |-v - (-n : ℤ) * 2 ^ t| = |v - n * 2 ^ t| := by
    rw [← abs_neg]
    push_cast
    congr 1
    ring
  refine ⟨t, -n, ⟨by rwa [abs_neg], hdistance ▸ hle, fun heq => ?_⟩, by push_cast; ring⟩
  exact (heven (hdistance ▸ heq)).neg

/-- No representable number is nearer. -/
theorem nearest (h : RoundsTo v r) {g : ℝ} (hg : IsRepresentable g) : |v - r| ≤ |v - g| := by
  -- Below zero this is about the negated numbers.
  wlog hv : 0 ≤ v generalizing v r g
  · have hneg := this h.neg hg.neg (by linarith)
    rwa [neg_sub_neg, neg_sub_neg, abs_sub_comm, abs_sub_comm g] at hneg
  obtain ⟨t, n, hn, rfl⟩ := h
  have hgrid := hn.isGridOf
  rw [abs_of_nonneg hv] at hgrid
  rcases hgrid.cases hg with hmultiple | ⟨hbelow, hcoarse⟩
  · exact hn.nearest (mem_grid.mpr hmultiple)
  · -- The least number that is rounded to this grid is on it and nearer.
    have hleast : (2 : ℝ) ^ (52 + t) ∈ grid t :=
      mem_grid.mpr ⟨2 ^ 52, by rw [zpow_add₀ two_ne_zero]; norm_num⟩
    have hnearer := hn.nearest hleast
    rw [abs_of_nonneg (sub_nonneg.mpr hcoarse)] at hnearer
    rw [abs_of_pos (by linarith : 0 < v - g)]
    linarith

/-- No representable number separates a number from the rounded one. -/
theorem noneBetween (h : RoundsTo v r) : NoneBetween v r := by
  intro g hg
  have hnearer := h.nearest hg
  constructor
  · intro hvg
    by_contra hlt
    rw [abs_of_neg (by linarith), abs_of_nonpos (by linarith)] at hnearer
    linarith
  · intro hgv
    by_contra hlt
    rw [abs_of_pos (by linarith), abs_of_nonneg (by linarith)] at hnearer
    linarith

/-- Representable numbers are not changed. -/
theorem eq_of_isRepresentable (h : RoundsTo v r) (hv : IsRepresentable v) : r = v := by
  have hnearer := h.nearest hv
  rw [sub_self, abs_zero, abs_nonpos_iff, sub_eq_zero] at hnearer
  exact hnearer.symm

/-- Rounding does not exceed a representable bound. -/
theorem abs_le_of_abs_le (h : RoundsTo v r) {g : ℝ} (hg : IsRepresentable g) (hv : |v| ≤ g) :
    |r| ≤ g := by
  obtain ⟨hlow, hhigh⟩ := abs_le.mp hv
  exact abs_le.mpr ⟨(h.noneBetween _ hg.neg).2 hlow, (h.noneBetween _ hg).1 hhigh⟩

/-- A number on a grid is rounded to a coarser one unless it does not change. -/
theorem eq_or_coarser (h : RoundsTo v r) {k : ℤ} (hv : v ∈ grid k) :
    r = v ∨ ∃ t, k < t ∧ -1074 ≤ t ∧ (t = -1074 ∨ 2 ^ (52 + t) ≤ |v|) ∧ r ∈ grid t ∧
      |v - r| ≤ 2 ^ t / 2 := by
  by_cases hchanged : r = v
  · exact Or.inl hchanged
  · obtain ⟨t, n, hn, rfl⟩ := id h
    obtain ⟨hfinest, hlt, hcoarse⟩ := hn.isGridOf
    refine Or.inr ⟨t, ?_, hfinest, hcoarse, mem_grid.mpr ⟨n, rfl⟩, hn.le⟩
    by_contra hfine
    exact hchanged (h.eq_of_isRepresentable
      (isRepresentable_of_mem_grid hfinest (grid_le (not_lt.mp hfine) hv) hlt.le))

/-- Rounding does not leave a grid. -/
theorem mem (h : RoundsTo v r) {k : ℤ} (hv : v ∈ grid k) : r ∈ grid k := by
  rcases h.eq_or_coarser hv with rfl | ⟨t, hkt, -, -, hr, -⟩
  · exact hv
  · exact grid_le hkt.le hr

/-- Only zero is rounded to zero. -/
theorem eq_zero (h : RoundsTo v 0) (hv : v ∈ grid (-1074)) : v = 0 := by
  rcases h.eq_or_coarser hv with hzero | ⟨t, hcoarser, -, hcoarse, -, hle⟩
  · exact hzero.symm
  · have hlarge := hcoarse.resolve_left (by omega)
    have hpow : (0 : ℝ) < 2 ^ t := zpow_pos two_pos t
    rw [zpow_add₀ two_ne_zero] at hlarge
    rw [sub_zero] at hle
    norm_num at hlarge
    linarith

/-- Rounding keeps a number on its side of zero. -/
theorem pos_iff (h : RoundsTo v r) (hv : v ∈ grid (-1074)) : 0 < r ↔ 0 < v := by
  have hzero : IsRepresentable 0 := ⟨0, 0, by norm_num, by norm_num, by simp⟩
  have hsides := h.noneBetween 0 hzero
  constructor
  · intro hr
    by_contra hle
    linarith [hsides.1 (not_lt.mp hle)]
  · intro hpos
    refine (hsides.2 hpos.le).lt_of_ne fun heq => hpos.ne' ?_
    rw [← heq] at h
    exact h.eq_zero hv

/-- Rounding a number below a power of two changes it by half a unit of the last place below. -/
theorem error_le_of_lt (h : RoundsTo v r) {k : ℤ} (hk : -1021 ≤ k) (hv : |v| < 2 ^ k) :
    |v - r| ≤ 2 ^ (k - 54) := by
  obtain ⟨t, n, hn, rfl⟩ := h
  have ht : t ≤ k - 53 := by
    rcases hn.isGridOf.le with rfl | hcoarse
    · omega
    · have := exponent_lt_of_between hcoarse hv
      omega
  calc |v - n * 2 ^ t| ≤ 2 ^ t / 2 := hn.le
    _ = 2 ^ (t - 1) := by rw [zpow_sub_one₀ two_ne_zero, div_eq_mul_inv]
    _ ≤ 2 ^ (k - 54) := zpow_le_zpow_right₀ one_le_two (by omega)

/-- Rounding a number no larger than a bound changes it by no more than the rounding unit times the
bound. -/
theorem error_le_mul (h : RoundsTo v r) {b : ℝ} (hb : 1 ≤ b) (hv : |v| ≤ b) :
    |v - r| ≤ b * 2 ^ (-53 : ℤ) := by
  obtain ⟨k, hlow, hhigh⟩ := exists_mem_Ico_zpow (zero_lt_one.trans_le hb) one_lt_two
  have hk : 0 < k + 1 := exponent_lt_of_between (by rwa [zpow_zero]) hhigh
  calc |v - r| ≤ 2 ^ (k + 1 - 54) := h.error_le_of_lt (by omega) (hv.trans_lt hhigh)
    _ = 2 ^ k * 2 ^ (-53 : ℤ) := by rw [← zpow_add₀ two_ne_zero]; congr 1; ring
    _ ≤ b * 2 ^ (-53 : ℤ) := mul_le_mul_of_nonneg_right hlow (zpow_pos two_pos _).le

/-- Signs are applied to both sides. -/
theorem withSign (h : RoundsTo v r) (sign : Sign) :
    RoundsTo (withSign sign v) (withSign sign r) := by
  cases sign
  · exact h.neg
  · exact h

/-! ## What is lost of a sum -/

/-- What is lost of a sum is on the grid of both summands and no more than either. -/
theorem isRepresentable_lost (h : RoundsTo (p + q) r) (hp : IsRepresentable p)
    (hq : IsRepresentable q) : IsRepresentable (p + q - r) := by
  obtain ⟨i, hi, hpi, hpmax⟩ := hp.exists_grid
  obtain ⟨j, hj, hqj, hqmax⟩ := hq.exists_grid
  -- The finer grid is that of the first summand, or else they change places.
  wlog hij : i ≤ j generalizing p q i j
  · rw [add_comm] at h ⊢
    exact this h hq hp j hj hqj hqmax i hi hpi hpmax (le_of_not_ge hij)
  have hsum := (grid i).add_mem hpi (grid_le hij hqj)
  refine isRepresentable_of_mem_grid hi ((grid i).sub_mem hsum (h.mem hsum)) ?_
  have hpow : (0 : ℝ) < 2 ^ i := zpow_pos two_pos i
  have hnearer := h.nearest hq
  rw [add_sub_cancel_right] at hnearer
  rw [zpow_add₀ two_ne_zero]
  calc |p + q - r| ≤ (2 ^ 53 - 1) * 2 ^ i := hnearer.trans hpmax
    _ ≤ 2 ^ (53 : ℤ) * 2 ^ i := mul_le_mul_of_nonneg_right (by norm_num) hpow.le

/-- The difference of the larger summand and the rounded sum is not rounded. -/
theorem isRepresentable_sub (h : RoundsTo (p + q) r) (hp : IsRepresentable p)
    (hq : IsRepresentable q) (hle : |q| ≤ |p|) : IsRepresentable (p - r) := by
  obtain ⟨i, hi, hpi, hpmax⟩ := hp.exists_grid
  obtain ⟨j, hj, hqj, hqmax⟩ := hq.exists_grid
  have hsum : p + q ∈ grid (min i j) :=
    (grid _).add_mem (grid_le (min_le_left i j) hpi) (grid_le (min_le_right i j) hqj)
  rcases h.eq_or_coarser hsum with rfl | ⟨t, hlt, hfinest, hcoarse, hr, hlost⟩
  · rw [sub_add_cancel_left]
    exact hq.neg
  · have hdifference : |p - r| ≤ |q| + 2 ^ t / 2 := by
      have htriangle := abs_sub (p + q - r) q
      rw [show p + q - r - q = p - r by ring] at htriangle
      linarith
    rcases lt_or_ge i t with hit | hti
    · -- The sum has at most one bit more than the larger summand.
      have hpow : (0 : ℝ) < 2 ^ i := zpow_pos two_pos i
      have hnext : t ≤ i + 1 := by
        have htwice : |p + q| < 2 ^ (54 + i) := by
          have htriangle := abs_add_le p q
          rw [zpow_add₀ two_ne_zero]
          norm_num at hpmax ⊢
          linarith
        have := exponent_lt_of_between (hcoarse.resolve_left (by omega)) htwice
        omega
      obtain rfl : t = i + 1 := by omega
      refine isRepresentable_of_mem_grid hi ((grid i).sub_mem hpi (grid_le hit.le hr)) ?_
      rw [zpow_add₀ two_ne_zero] at hdifference ⊢
      norm_num at hpmax hdifference ⊢
      linarith
    · refine isRepresentable_of_mem_grid hfinest ((grid t).sub_mem (grid_le hti hpi) hr) ?_
      have hpow : (0 : ℝ) < 2 ^ t := zpow_pos two_pos t
      have hjt : (2 : ℝ) ^ j ≤ 2 ^ t := zpow_le_zpow_right₀ one_le_two (by omega)
      rw [zpow_add₀ two_ne_zero]
      norm_num at hqmax ⊢
      linarith

end RoundsTo

/-! ## Canonical floats -/

/-- The float is finite and stands for the exact number rounded to 53 significant bits, ties to
even. -/
structure IsNearest (v : ℝ) (u : UnpackedFloat) : Prop where
  canonical : IsCanonical u
  roundsTo : RoundsTo v (value u)

/-- No representable number separates the float from the exact number. -/
theorem IsNearest.isRounded {v : ℝ} {u : UnpackedFloat} (h : IsNearest v u) : IsRounded v u :=
  ⟨h.canonical, h.roundsTo.noneBetween⟩

/-- Rounding an extended significand on the grid rounds the number. -/
theorem Splits.roundsTo {em : ExtendedMantissa} {t : ℤ} {v : ℝ} (hv : 0 ≤ v)
    (hgrid : IsGridOf t v) (h : Splits em (v / 2 ^ t)) :
    RoundsTo v (em.roundedMantissa * 2 ^ t) := by
  obtain ⟨hle, heven⟩ := h.rounded
  generalize em.roundedMantissa = n at hle heven
  have hpow : (0 : ℝ) < 2 ^ t := zpow_pos two_pos t
  have hdistance : |v - (n : ℤ) * 2 ^ t| = |v / 2 ^ t - n| * 2 ^ t := by
    rw [Int.cast_natCast, ← abs_of_pos hpow, ← abs_mul, abs_of_pos hpow, sub_mul,
      div_mul_cancel₀ _ hpow.ne']
  refine ⟨t, n, ⟨by rwa [abs_of_nonneg hv], ?_, fun heq => ?_⟩, rfl⟩
  · rw [hdistance]
    linarith [mul_le_mul_of_nonneg_right hle hpow.le]
  · rw [hdistance] at heq
    exact_mod_cast heven (mul_right_cancel₀ hpow.ne' (by linarith))

/-- An exact number is rounded if its exponent is small enough. -/
theorem isNearest_exact {m : ℕ} {e : ℤ}
    (he : e ≤ Format.binary64.targetExponent (totalExponent m e)) (sign : Sign) :
    IsNearest (withSign sign (m * 2 ^ e)) (roundWithAccuracy Format.binary64 sign m e .exact) := by
  have hscaled : (m : ℝ) * 2 ^ e / 2 ^ e = m := mul_div_cancel_right₀ _ (zpow_pos two_pos e).ne'
  have hencloses : Encloses (.ofMantissaAndAccuracy m .exact) (m * 2 ^ e / 2 ^ e) := by
    rw [hscaled]
    exact encloses_exact m
  have hsplits : Splits (.ofMantissaAndAccuracy m .exact) (m * 2 ^ e / 2 ^ e) := by
    rw [hscaled]
    exact splits_exact m
  obtain ⟨t, het, hgrid, hcanonical, hvalue⟩ := roundWithAccuracy_eq hencloses he sign
  refine ⟨hcanonical, ?_⟩
  rw [hvalue]
  exact ((hsplits.shiftRight het).roundsTo (by positivity) hgrid).withSign sign

/-- Zero is rounded already. -/
theorem roundsTo_zero : RoundsTo 0 0 := by
  refine ⟨-1074, 0, ⟨⟨le_rfl, ?_, Or.inl rfl⟩, ?_, fun _ => Even.zero⟩, by simp⟩
  · rw [abs_zero]
    exact zpow_pos two_pos _
  · rw [Int.cast_zero, zero_mul, sub_zero, abs_zero]
    exact div_nonneg (zpow_pos two_pos _).le zero_le_two

/-- Canonical floats stand for numbers that are rounded already. -/
theorem isNearest_value {u : UnpackedFloat} (hu : IsCanonical u) : IsNearest (value u) u := by
  refine ⟨hu, ?_⟩
  obtain ⟨sign, rfl⟩ | ⟨sign, m, e, hm, rfl⟩ := hu.zero_or_finite
  · exact roundsTo_zero
  · obtain ⟨hlt, hfinest, hbits⟩ := hu
    have hpow : (0 : ℝ) < 2 ^ e := zpow_pos two_pos e
    have hdistance : |m * (2 : ℝ) ^ e - (m : ℤ) * 2 ^ e| = 0 := by simp
    refine RoundsTo.withSign ⟨e, m, ⟨⟨hfinest, ?_, ?_⟩, ?_, fun heq => ?_⟩, rfl⟩ sign
    · rw [abs_of_nonneg (by positivity), zpow_add₀ two_ne_zero, mul_lt_mul_iff_of_pos_right hpow]
      exact_mod_cast hlt
    · refine hbits.symm.imp_right fun hlong => ?_
      rw [abs_of_nonneg (by positivity), zpow_add₀ two_ne_zero, mul_le_mul_iff_of_pos_right hpow]
      exact_mod_cast hlong
    · rw [hdistance]
      linarith
    · rw [hdistance] at heq
      linarith

end ColorWords.Binary64
