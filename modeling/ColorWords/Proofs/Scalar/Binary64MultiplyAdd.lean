import ColorWords.Proofs.Scalar.Binary64Lost

/-!
# Products added to floats

A product of floats and its sum with a third one is the exact number rounded once. Rounding the
product and rounding the sum each lose a number that is a float itself, so both are added to the sum
before it is rounded again. If they do not add up to a float, the result is between those for both
ends of a range, and there is only one such float in almost all cases. In the others, and for floats
near the ends of the range, the exact number is computed as an integer.
-/

namespace ColorWords.Binary64

open Float.Model Float.Model.UnpackedFloat

variable {x y z : Float} {p q r : ℝ}

/-! ## Moderate floats -/

/-- The words of a moderate float tell its exponent. -/
theorem exists_isNormalAt_of_isModerate (h : isModerate x = true) :
    ∃ e p, IsNormalAt e x p ∧ -475 ≤ e ∧ e ≤ 325 := by
  rw [isModerate, Bool.and_eq_true, decide_eq_true_eq, decide_eq_true_eq, UInt64.le_iff_toNat_le,
    UInt64.le_iff_toNat_le, toNat_exponentWord] at h
  change 600 ≤ exponentField x ∧ exponentField x ≤ 1400 at h
  have hfinite : isFinite x = true := by
    rw [isFinite, bne_iff_ne]
    omega
  have hvalue := hasValue_iff.mpr ⟨hfinite, rfl⟩
  exact ⟨_, _, hvalue.isNormalAt (by omega), by omega, by omega⟩

/-- Moderate floats are not zeros. -/
theorem HasValue.ne_zero_of_isModerate (hx : HasValue x p) (h : isModerate x = true) : p ≠ 0 := by
  obtain ⟨e, p', hx', -⟩ := exists_isNormalAt_of_isModerate h
  obtain rfl : p' = p := hx'.hasValue.2.symm.trans hx.2
  exact abs_pos.mp ((zpow_pos two_pos _).trans_le hx'.le_abs)

/-- The sum of numbers with the same bound is at most twice the bound. -/
theorem abs_sum_le {n : ℤ} (hp : |p| ≤ 2 ^ n) (hq : |q| ≤ 2 ^ n) : |p + q| ≤ 2 ^ (n + 1) := by
  rw [zpow_add_one₀ two_ne_zero]
  linarith [abs_add_le p q]

/-- The difference of numbers with the same bound is at most twice the bound. -/
theorem abs_difference_le {n : ℤ} (hp : |p| ≤ 2 ^ n) (hq : |q| ≤ 2 ^ n) :
    |p - q| ≤ 2 ^ (n + 1) := by
  rw [zpow_add_one₀ two_ne_zero]
  linarith [abs_sub p q]

/-- The float stands for the number, which is a point of the grid and bounded by the power of
two. -/
structure IsBounded (k n : ℤ) (x : Float) (p : ℝ) : Prop where
  hasValue : HasValue x p
  mem_grid : p ∈ grid k
  abs_le : |p| ≤ 2 ^ n

namespace IsBounded

variable {k n : ℤ}

/-- Bounds can be relaxed. -/
theorem mono {l m : ℤ} (hx : IsBounded k n x p) (hgrid : l ≤ k) (hle : n ≤ m) :
    IsBounded l m x p :=
  ⟨hx.hasValue, grid_le hgrid hx.mem_grid, hx.abs_le.trans (zpow_le_zpow_right₀ one_le_two hle)⟩

/-- Rounding keeps the bounds. -/
theorem of_roundsTo {v : ℝ} (hz : HasValue z r) (hrounds : RoundsTo v r) (hgrid : v ∈ grid k)
    (hle : |v| ≤ 2 ^ n) (hn : -1074 ≤ n) : IsBounded k n z r :=
  ⟨hz, hrounds.mem hgrid, hrounds.abs_le_of_abs_le (isRepresentable_two_zpow hn) hle⟩

/-- A sum has twice the bound. -/
theorem add (hx : IsBounded k n x p) (hy : IsBounded k n y q) (hlow : -1074 ≤ n)
    (hhigh : n ≤ 1022) : ∃ r, IsBounded k (n + 1) (x + y) r ∧ RoundsTo (p + q) r := by
  have hle := abs_sum_le hx.abs_le hy.abs_le
  obtain ⟨r, hr, hrounds⟩ := hx.hasValue.add hy.hasValue
    (hle.trans (zpow_le_zpow_right₀ one_le_two (by omega)))
  have hgrid := (grid k).add_mem hx.mem_grid hy.mem_grid
  exact ⟨r, of_roundsTo hr hrounds hgrid hle (by omega), hrounds⟩

/-- A difference has twice the bound. -/
theorem sub (hx : IsBounded k n x p) (hy : IsBounded k n y q) (hlow : -1074 ≤ n)
    (hhigh : n ≤ 1022) : ∃ r, IsBounded k (n + 1) (x - y) r ∧ RoundsTo (p - q) r := by
  have hle := abs_difference_le hx.abs_le hy.abs_le
  obtain ⟨r, hr, hrounds⟩ := hx.hasValue.sub hy.hasValue
    (hle.trans (zpow_le_zpow_right₀ one_le_two (by omega)))
  have hgrid := (grid k).sub_mem hx.mem_grid hy.mem_grid
  exact ⟨r, of_roundsTo hr hrounds hgrid hle (by omega), hrounds⟩

/-- What rounding loses of a sum has four times the bound. -/
theorem lostSum (hx : IsBounded k n x p) (hy : IsBounded k n y q) (hz : HasValue z r)
    (hrounds : RoundsTo (p + q) r) (hlow : -1074 ≤ n) (hhigh : n ≤ 1021) :
    IsBounded k (n + 2) (lostSum x y z) (p + q - r) := by
  have hle := abs_sum_le hx.abs_le hy.abs_le
  have hgrid := (grid k).add_mem hx.mem_grid hy.mem_grid
  have hrounded := of_roundsTo hz hrounds hgrid hle (by omega)
  have hrange : |p| + |q| ≤ 2 ^ (1022 : ℤ) := by
    have htwice := zpow_add_one₀ (two_ne_zero (α := ℝ)) n
    have htop : (2 : ℝ) ^ (n + 1) ≤ 2 ^ (1022 : ℤ) := zpow_le_zpow_right₀ one_le_two (by omega)
    linarith [hx.abs_le, hy.abs_le]
  refine ⟨hx.hasValue.lostSum hy.hasValue hz hrounds hrange,
    (grid k).sub_mem hgrid hrounded.mem_grid, ?_⟩
  have hdifference := abs_difference_le hle hrounded.abs_le
  rwa [add_assoc] at hdifference

end IsBounded

/-- A moderate float is bounded on both sides. -/
theorem IsNormalAt.isBounded {e : ℤ} (hx : IsNormalAt e x p) : IsBounded e (53 + e) x p := by
  refine ⟨hx.hasValue, ?_, hx.abs_lt.le⟩
  have hmagnitude : |p| ∈ grid e := mem_grid.mpr ⟨significand x, hx.abs_eq⟩
  exact abs_mem_iff.mp hmagnitude

/-- The product of points of two grids is on the grid with the product of the steps. -/
theorem mul_mem_grid {i j : ℤ} (hp : p ∈ grid i) (hq : q ∈ grid j) : p * q ∈ grid (i + j) := by
  obtain ⟨m, rfl⟩ := mem_grid.mp hp
  obtain ⟨n, rfl⟩ := mem_grid.mp hq
  refine mem_grid.mpr ⟨m * n, ?_⟩
  rw [zpow_add₀ two_ne_zero]
  push_cast
  ring

/-! ## Both ends of a range -/

/-- The value of the bound of the relative error. -/
theorem hasValue_errorRatio : HasValue errorRatio (2 ^ (-40 : ℤ)) :=
  hasValue_of_key (-92) (2 ^ 52) (by decide +kernel) (by norm_num)

/-- A rounded number with a margin on both sides encloses the number itself. -/
theorem between_of_margin {v lost margin low high : ℝ} (hlost : |v - lost| ≤ |v| * 2 ^ (-53 : ℤ))
    (hmargin : |(|lost| * 2 ^ (-40 : ℤ)) - margin| ≤ |(|lost| * 2 ^ (-40 : ℤ))| * 2 ^ (-53 : ℤ))
    (hlow : |lost - margin - low| ≤ |lost - margin| * 2 ^ (-53 : ℤ))
    (hhigh : |lost + margin - high| ≤ |lost + margin| * 2 ^ (-53 : ℤ)) : low ≤ v ∧ v ≤ high := by
  have hunit : (2 : ℝ) ^ (-53 : ℤ) = 1 / 9007199254740992 := by norm_num
  have hratio : (2 : ℝ) ^ (-40 : ℤ) = 1 / 1099511627776 := by norm_num
  have hnonneg := abs_nonneg lost
  rw [hunit] at hlost hmargin hlow hhigh
  rw [hratio, abs_of_nonneg (by positivity : 0 ≤ |lost| * (1 / 1099511627776)), abs_le] at hmargin
  have hmarginPos : 0 ≤ margin := by linarith
  have hv : |v| ≤ |v - lost| + |lost| := by simpa using abs_add_le (v - lost) lost
  have hdifference : |lost - margin| ≤ |lost| + |margin| := abs_sub lost margin
  have hsum : |lost + margin| ≤ |lost| + |margin| := abs_add_le lost margin
  rw [abs_of_nonneg hmarginPos] at hdifference hsum
  have hclose : |v - lost| ≤ |lost| * (2 / 9007199254740992) := by linarith
  rw [abs_le] at hlow hhigh hclose
  constructor <;> linarith

/-- If both ends of the range of what rounding can have lost of a sum lead to the same float, this
is the rounded number. -/
theorem roundsTo_of_ends {sum lost : Float} {s l v : ℝ} (hsum : IsBounded (-990) 761 sum s)
    (hlost : IsBounded (-950) 759 lost l) (hgrid : v ∈ grid (-950)) (hrounds : RoundsTo v l)
    (hends : sum + (lost + lost.abs * errorRatio) ≤ sum + (lost - lost.abs * errorRatio)) :
    ∃ t, HasValue (sum + (lost - lost.abs * errorRatio)) t ∧ RoundsTo (s + v) t := by
  have hfine {k : ℤ} {t : ℝ} (ht : t ∈ grid k) (hk : -1074 ≤ k) : t ∈ grid (-1074) := grid_le hk ht
  have hscaled : |l| * 2 ^ (-40 : ℤ) ∈ grid (-950 + -40) :=
    mul_mem_grid (abs_mem_iff.mpr hlost.mem_grid) (mem_grid.mpr ⟨1, by norm_num⟩)
  have hsmall : |(|l| * 2 ^ (-40 : ℤ))| ≤ 2 ^ (759 : ℤ) := by
    rw [abs_of_nonneg (by positivity)]
    exact (mul_le_of_le_one_right (abs_nonneg l) (zpow_le_one_of_nonpos₀ one_le_two
      (by norm_num))).trans hlost.abs_le
  obtain ⟨margin, hmargin, hmarginRounds⟩ := hlost.hasValue.abs.mul hasValue_errorRatio
    (isRepresentable_two_zpow (by norm_num)) (zpow_lt_zpow_right₀ one_lt_two (by norm_num)) hsmall
  have hmargin := IsBounded.of_roundsTo hmargin hmarginRounds hscaled hsmall (by norm_num)
  have hlost' := hlost.mono (l := -990) (m := 759) (by norm_num) (by norm_num)
  obtain ⟨low, hlow, hlowRounds⟩ := hlost'.sub hmargin (by norm_num) (by norm_num)
  obtain ⟨high, hhigh, hhighRounds⟩ := hlost'.add hmargin (by norm_num) (by norm_num)
  obtain ⟨t, ht, htRounds⟩ := hsum.add (hlow.mono le_rfl (by norm_num)) (by norm_num) (by norm_num)
  obtain ⟨t', ht', htRounds'⟩ :=
    hsum.add (hhigh.mono le_rfl (by norm_num)) (by norm_num) (by norm_num)
  obtain ⟨hlowLe, hhighLe⟩ := between_of_margin
    (hrounds.error_le_abs (hfine hgrid (by norm_num)))
    (hmarginRounds.error_le_abs (hfine hscaled (by norm_num)))
    (hlowRounds.error_le_abs (hfine ((grid _).sub_mem hlost'.mem_grid hmargin.mem_grid)
      (by norm_num)))
    (hhighRounds.error_le_abs (hfine ((grid _).add_mem hlost'.mem_grid hmargin.mem_grid)
      (by norm_num)))
  have hle := (ht'.hasValue.le_iff ht.hasValue).mp hends
  have hge := htRounds.mono htRounds' ht.hasValue.isRepresentable ht'.hasValue.isRepresentable
    (by linarith)
  obtain rfl := le_antisymm hle hge
  exact ⟨_, ht.hasValue, htRounds.of_between htRounds' ht.hasValue.isRepresentable
    ((grid _).add_mem hsum.mem_grid (grid_le (by norm_num) hgrid)) (by linarith) (by linarith)⟩

/-! ## Results -/

/-- The zeros are told by comparisons. -/
theorem HasValue.isZero_eq_true_iff (hx : HasValue x p) : isZero x = true ↔ p = 0 := by
  rw [isZero, Bool.and_eq_true, decide_eq_true_eq, decide_eq_true_eq, hx.le_iff hasValue_zero,
    hasValue_zero.le_iff hx]
  exact ⟨fun hle => le_antisymm hle.1 hle.2, fun hzero => ⟨hzero.le, hzero.ge⟩⟩

/-- The product of floats with exponents in the middle is rounded to a float that is not
subnormal, and what this loses is bounded. -/
theorem IsNormalAt.mul {i j : ℤ} (hx : IsNormalAt i x p) (hy : IsNormalAt j y q)
    (hlow : -950 ≤ i + j) (hhigh : i + j ≤ 650) :
    ∃ r, IsBounded (-950) 756 (x * y) r ∧
      IsBounded (-950) 757 (Binary64.lostProduct x y (x * y)) (p * q - r) := by
  obtain ⟨hleast, hgreatest⟩ := hx.abs_mul_bounds hy
  have hgrid : p * q ∈ grid (-950) :=
    grid_le hlow (mul_mem_grid hx.isBounded.mem_grid hy.isBounded.mem_grid)
  have hle : |p * q| ≤ 2 ^ (756 : ℤ) :=
    hgreatest.le.trans (zpow_le_zpow_right₀ one_le_two (by omega))
  obtain ⟨r, hr, hrounds⟩ := hx.hasValue.mul hy.hasValue (isRepresentable_two_zpow (by norm_num))
    (zpow_lt_zpow_right₀ one_lt_two (by norm_num)) hle
  have hbounded := IsBounded.of_roundsTo hr hrounds hgrid hle (by norm_num)
  have hlarge : 2 ^ (-1022 : ℤ) ≤ |r| :=
    (hrounds.abs.1.noneBetween _ (isRepresentable_two_zpow (by norm_num))).2
      ((zpow_le_zpow_right₀ one_le_two (by omega)).trans hleast)
  have hnormal := hr.isNormalAt (hr.exponentField_ne_zero hlarge)
  exact ⟨r, hbounded, hx.lostProduct hy hnormal hrounds (by omega) (by omega),
    (grid _).sub_mem hgrid hbounded.mem_grid, abs_difference_le hle hbounded.abs_le⟩

/-- The product of two floats and its sum with a third one are the exact number rounded, or they are
left to integers. The first takes moderate floats. -/
theorem multiplyAdd_cases (hxp : HasValue x p) (hyq : HasValue y q) (hzr : HasValue z r) :
    (isModerate x = true ∧ p * q + r ∈ grid (-950) ∧
        ∃ s, HasValue (multiplyAdd x y z) s ∧ RoundsTo (p * q + r) s) ∨
      multiplyAdd x y z = multiplyAddExact x y z := by
  by_cases hmoderate : (isModerate x && isModerate y && isModerate z) = true
  swap
  · exact Or.inr (if_neg hmoderate)
  obtain ⟨⟨hx, hy⟩, hz⟩ : (isModerate x = true ∧ isModerate y = true) ∧ isModerate z = true := by
    rwa [Bool.and_eq_true, Bool.and_eq_true] at hmoderate
  obtain ⟨i, p', hx', hi, hi'⟩ := exists_isNormalAt_of_isModerate hx
  obtain ⟨j, q', hy', hj, hj'⟩ := exists_isNormalAt_of_isModerate hy
  obtain ⟨k, r', hz', hk, hk'⟩ := exists_isNormalAt_of_isModerate hz
  obtain rfl : p' = p := hx'.hasValue.2.symm.trans hxp.2
  obtain rfl : q' = q := hy'.hasValue.2.symm.trans hyq.2
  obtain rfl : r' = r := hz'.hasValue.2.symm.trans hzr.2
  obtain ⟨product, hproduct, hofProduct⟩ := hx'.mul hy' (by omega) (by omega)
  have hterm := hz'.isBounded.mono (l := -950) (m := 756) (by omega) (by omega)
  obtain ⟨sum, hsum, hsumRounds⟩ := hproduct.add hterm (by norm_num) (by norm_num)
  have hofSum := hproduct.lostSum hterm hsum.hasValue hsumRounds (by norm_num) (by norm_num)
  have hofProduct := hofProduct.mono le_rfl (m := 756 + 2) (by norm_num)
  obtain ⟨lost, hlost, hlostRounds⟩ := hofProduct.add hofSum (by norm_num) (by norm_num)
  have hrest := hofProduct.lostSum hofSum hlost.hasValue hlostRounds (by norm_num) (by norm_num)
  have htotal : sum + (p' * q' - product + (product + r' - sum)) = p' * q' + r' := by ring
  have hlostGrid := (grid _).add_mem hofProduct.mem_grid hofSum.mem_grid
  have hgrid := (grid _).add_mem hsum.mem_grid hlostGrid
  rw [htotal] at hgrid
  unfold multiplyAdd
  rw [if_pos hmoderate]
  dsimp only
  split
  · next hzero =>
    rw [hrest.hasValue.isZero_eq_true_iff, sub_eq_zero] at hzero
    obtain ⟨s, hs, hsRounds⟩ := (hsum.mono le_rfl (by norm_num)).add hlost (by norm_num)
      (by norm_num)
    rw [← hzero, htotal] at hsRounds
    exact Or.inl ⟨hx, hgrid, s, hs.hasValue, hsRounds⟩
  · split
    · next hends =>
      have hrounds := roundsTo_of_ends (hsum.mono (by norm_num) (by norm_num)) hlost hlostGrid
        hlostRounds hends
      rw [htotal] at hrounds
      exact Or.inl ⟨hx, hgrid, hrounds⟩
    · exact Or.inr rfl

/-- A float that stands for another number than zero has a significand. -/
theorem HasValue.exists_finite (hx : HasValue x p) (hne : p ≠ 0) :
    ∃ s m e hm, x.toModel.unpack = .finite s m e hm := by
  refine hx.1.zero_or_finite.resolve_left fun ⟨s, hzero⟩ => hne ?_
  rw [← hx.2, hzero, value_zero]

/-- An exact product of finite floats and its sum with a third one are an integer at an
exponent. -/
theorem multiplyAdd_finite (s s' t : Sign) (m n l : ℕ) (e k g : ℤ) (hm : 0 < m) (hn : 0 < n)
    (hl : 0 < l) :
    value (.finite s m e hm) * value (.finite s' n k hn) + value (.finite t l g hl) =
      (((s * s').apply (decreaseExponent (m * n) (e + k) (min (e + k) g)).1 +
        t.apply (decreaseExponent l g (min (e + k) g)).1 : ℤ) : ℝ) * 2 ^ min (e + k) g := by
  have hproduct := decreaseExponent_scaled (m * n) (e + k) (min (e + k) g)
  have hterm := decreaseExponent_scaled l g (min (e + k) g)
  rw [decreaseExponent_snd (m * n) (min_le_left (e + k) g)] at hproduct
  rw [decreaseExponent_snd l (min_le_right (e + k) g)] at hterm
  have hfactors : withSign s (m * 2 ^ e) * withSign s' (n * 2 ^ k) =
      withSign (s * s') ((m * n : ℕ) * 2 ^ (e + k)) := by
    rw [withSign_mul_withSign, zpow_add₀ two_ne_zero, Nat.cast_mul]
    congr 1
    ring
  rw [value, value, value, hfactors, ← hproduct, ← hterm, withSign_mul, withSign_mul, Int.cast_add,
    cast_apply, cast_apply, add_mul]

section Exact

variable (hx : HasValue x p) (hy : HasValue y q) (hz : HasValue z r)

include hx hy

/-- A zero factor leaves the arithmetic to float operations. -/
theorem multiplyAddExact_of_factor (hfactor : p * q = 0) : multiplyAddExact x y z = x * y + z := by
  rw [mul_eq_zero, ← hx.isZero_eq_true_iff, ← hy.isZero_eq_true_iff, ← Bool.or_eq_true] at hfactor
  exact if_pos hfactor

include hz

/-- A zero that is added leaves the product. -/
theorem multiplyAddExact_of_term (hfactor : p * q ≠ 0) (hterm : r = 0) :
    multiplyAddExact x y z = x * y := by
  rw [ne_eq, mul_eq_zero, ← hx.isZero_eq_true_iff, ← hy.isZero_eq_true_iff,
    ← Bool.or_eq_true] at hfactor
  rw [multiplyAddExact, if_neg hfactor, if_pos (hz.isZero_eq_true_iff.mpr hterm)]

/-- If nothing is zero, the exact number is packed as an integer at an exponent. -/
theorem multiplyAddExact_of_ne_zero (hfactor : p * q ≠ 0) (hterm : r ≠ 0) :
    ∃ (total : ℤ) (exponent : ℤ), p * q + r = total * 2 ^ exponent ∧
      (multiplyAddExact x y z).toModel =
        Float.Model.pack (UnpackedFloat.normalize Format.binary64 total exponent .positive) := by
  obtain ⟨s, m, e, hm, hxu⟩ := hx.exists_finite (left_ne_zero_of_mul hfactor)
  obtain ⟨s', n, k, hn, hyu⟩ := hy.exists_finite (right_ne_zero_of_mul hfactor)
  obtain ⟨t, l, g, hl, hzu⟩ := hz.exists_finite hterm
  have htotal := multiplyAdd_finite s s' t m n l e k g hm hn hl
  rw [← hxu, ← hyu, ← hzu, hx.2, hy.2, hz.2] at htotal
  rw [ne_eq, mul_eq_zero, ← hx.isZero_eq_true_iff, ← hy.isZero_eq_true_iff,
    ← Bool.or_eq_true] at hfactor
  refine ⟨_, _, htotal, ?_⟩
  rw [multiplyAddExact, if_neg hfactor, if_neg fun hzero => hterm (hz.isZero_eq_true_iff.mp hzero),
    hxu, hyu, hzu]

/-- The exact number is rounded if it is computed as an integer. -/
theorem isNearest_multiplyAddExact :
    ∃ u, IsNearest (p * q + r) u ∧ (multiplyAddExact x y z).toModel = Float.Model.pack u := by
  by_cases hfactor : p * q = 0
  · have hproduct : HasValue (x * y) 0 := by
      rw [← hfactor]
      refine hx.mul_exact hy (hfactor ▸ hasValue_zero.isRepresentable) ?_
      rw [hfactor, abs_zero]
      positivity
    rw [multiplyAddExact_of_factor hx hy hfactor, hfactor, ← hproduct.2, ← hz.2]
    exact ⟨_, isNearest_add hproduct.1 hz.1, rfl⟩
  · by_cases hterm : r = 0
    · rw [multiplyAddExact_of_term hx hy hz hfactor hterm, hterm, add_zero, ← hx.2, ← hy.2]
      exact ⟨_, isNearest_mul hx.1 hy.1, rfl⟩
    · obtain ⟨total, exponent, htotal, hpack⟩ :=
        multiplyAddExact_of_ne_zero hx hy hz hfactor hterm
      exact ⟨_, htotal ▸ isNearest_normalize total exponent .positive, hpack⟩

/-- A product and its sum with a third float are the exact number rounded once. -/
theorem isNearest_multiplyAdd :
    ∃ u, IsNearest (p * q + r) u ∧ (multiplyAdd x y z).toModel = Float.Model.pack u := by
  obtain ⟨-, -, s, hs, hrounds⟩ | heq := multiplyAdd_cases hx hy hz
  · exact ⟨_, ⟨hs.1, hs.2.symm ▸ hrounds⟩, pack_unpack _⟩
  · rw [heq]
    exact isNearest_multiplyAddExact hx hy hz

/-- A product and its sum with a third float compare as the exact number does. -/
theorem HasValue.rounds_multiplyAdd : Rounds (p * q + r) (multiplyAdd x y z) := by
  obtain ⟨u, hu, hpack⟩ := isNearest_multiplyAdd hx hy hz
  exact hu.isRounded.rounds hpack

end Exact

/-! ## Signs of zeros -/

/-- A number that is not negative is not rounded to the negative zero. -/
theorem normalize_ne_negativeZero {m : ℤ} (hm : 0 ≤ m) (e : ℤ) :
    UnpackedFloat.normalize Format.binary64 m e .positive ≠ .zero .negative := by
  unfold UnpackedFloat.normalize
  split
  · next hneg =>
    rw [Int.compare_eq_lt] at hneg
    omega
  · exact nofun
  · unfold UnpackedFloat.round roundWithAccuracy
    dsimp only
    split <;> exact nofun

section Squares

variable (hx : HasValue x p) (hz : HasValue z r) (hr : 0 ≤ r) (hrange : p * p + r ≤ 2 ^ (1023 : ℤ))

include hx hz hr hrange

/-- Adding to a square never yields the negative zero if the exact number is computed. -/
theorem isPlain_multiplyAddExact_self : IsPlain (multiplyAddExact x x z) := by
  have hsquare := mul_self_nonneg p
  have hproductRange : |p * p| ≤ 2 ^ (1023 : ℤ) :=
    (abs_of_nonneg hsquare).trans_le (by linarith)
  have hplainSquare : IsPlain (x * x) := hx.isPlain_mul_self hproductRange
  have hsumRange : |p * p + r| ≤ 2 ^ (1023 : ℤ) := (abs_of_nonneg (by linarith)).trans_le hrange
  by_cases hfactor : p * p = 0
  · rw [multiplyAddExact_of_factor hx hx hfactor]
    have hproduct : HasValue (x * x) (p * p) :=
      hx.mul_exact hx (hfactor ▸ hasValue_zero.isRepresentable) hproductRange
    exact hplainSquare.add hproduct hz hsumRange
  · by_cases hterm : r = 0
    · rwa [multiplyAddExact_of_term hx hx hz hfactor hterm]
    · obtain ⟨total, exponent, htotal, hpack⟩ :=
        multiplyAddExact_of_ne_zero hx hx hz hfactor hterm
      have hnearest := isNearest_normalize total exponent .positive
      rw [← htotal] at hnearest
      have hnonneg : (0 : ℝ) ≤ total * 2 ^ exponent := htotal ▸ add_nonneg hsquare hr
      have htotalNonneg : 0 ≤ total := by
        exact_mod_cast nonneg_of_mul_nonneg_left hnonneg (zpow_pos two_pos exponent)
      rw [IsPlain, hnearest.unpack_eq hsumRange hpack]
      exact normalize_ne_negativeZero htotalNonneg exponent

/-- Adding to a square never yields the negative zero. -/
theorem isPlain_multiplyAdd_self : IsPlain (multiplyAdd x x z) := by
  obtain ⟨hmoderate, hgrid, s, hs, hrounds⟩ | heq := multiplyAdd_cases hx hx hz
  · have hpos : 0 < p * p + r :=
      add_pos_of_pos_of_nonneg (mul_self_pos.mpr (hx.ne_zero_of_isModerate hmoderate)) hr
    exact hs.isPlain ((hrounds.pos_iff (grid_le (by norm_num) hgrid)).mpr hpos).ne'
  · rw [heq]
    exact isPlain_multiplyAddExact_self hx hz hr hrange

end Squares

/-- If a factor is a zero, product and sum are float operations. -/
theorem multiplyAdd_of_factor (h : HasValue x 0 ∨ HasValue y 0) :
    multiplyAdd x y z = x * y + z := by
  have hfactor : (isZero x || isZero y) = true := by
    rw [Bool.or_eq_true]
    exact h.imp (fun hx => hx.isZero_eq_true_iff.mpr rfl) fun hy => hy.isZero_eq_true_iff.mpr rfl
  have hmoderate : ¬ (isModerate x && isModerate y && isModerate z) = true := fun hmoderate => by
    rw [Bool.and_eq_true, Bool.and_eq_true] at hmoderate
    exact h.elim (fun hx => hx.ne_zero_of_isModerate hmoderate.1.1 rfl)
      fun hy => hy.ne_zero_of_isModerate hmoderate.1.2 rfl
  rw [multiplyAdd, if_neg hmoderate, multiplyAddExact, if_pos hfactor]

/-- Adding a zero leaves the product if that is not a product of a zero. -/
theorem multiplyAdd_of_term (h : HasValue z 0) :
    multiplyAdd x y z = if isZero x || isZero y then x * y + z else x * y := by
  have hmoderate : ¬ (isModerate x && isModerate y && isModerate z) = true := fun hmoderate => by
    rw [Bool.and_eq_true] at hmoderate
    exact h.ne_zero_of_isModerate hmoderate.2 rfl
  rw [multiplyAdd, if_neg hmoderate, multiplyAddExact, if_pos (h.isZero_eq_true_iff.mpr rfl)]

end ColorWords.Binary64
