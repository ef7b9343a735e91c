import ColorWords.Proofs.Scalar.Binary64Alike
import ColorWords.Proofs.Scalar.Binary64Reading

/-!
# Powers of 64-bit floats

Repeated squaring multiplies as many rounding errors into a power as it has factors. So the powers
of ten as floats are exact at first, then close to the powers, and infinite from the first power on
that is out of range.
-/

namespace ColorWords

/-! ## Repeated squaring -/

namespace Scalar

variable {α : Type} [Scalar α]

/-- What relates results and bases to exponents, and is kept by products and by squares of bases up
to some exponent, relates a power to its exponent. -/
theorem timesPower_induction {R B : ℕ → α → Prop} {limit : ℕ}
    (hmul : ∀ {a m : ℕ} {x y : α}, a + m ≤ limit → R a x → B m y → R (a + m) (x * y))
    (hsquare : ∀ {m : ℕ} {y : α}, 2 * m ≤ limit → B m y → B (2 * m) (y * y))
    {fuel n a m : ℕ} {result base : α} (hfuel : n < fuel) (hresult : R a result) (hbase : B m base)
    (hlimit : a + m * n ≤ limit) : R (a + m * n) (timesPower result base n fuel) := by
  induction fuel generalizing n a m result base with
  | zero => omega
  | succ fuel ih =>
    have hsplit := Nat.div_add_mod n 2
    have hexponent : m * n = 2 * m * (n / 2) + m * (n % 2) := by
      conv_lhs => rw [← hsplit]
      ring
    -- The lowest digit is taken into the result first.
    have hdigit : R (a + m * (n % 2)) (if n % 2 = 1 then result * base else result) := by
      split
      · next hodd =>
        rw [hodd, mul_one]
        rw [hodd, mul_one] at hexponent
        exact hmul (by omega) hresult hbase
      · next heven =>
        have hzero : n % 2 = 0 := by omega
        rw [hzero, mul_zero, add_zero]
        exact hresult
    rw [timesPower]
    split
    · next hlast =>
      rw [hlast, mul_zero, zero_add] at hexponent
      rw [hexponent]
      exact hdigit
    · next hmore =>
      have hle : 2 * m * 1 ≤ 2 * m * (n / 2) :=
        Nat.mul_le_mul_left _ (Nat.pos_of_ne_zero hmore)
      have hnext := ih (n := n / 2) (by omega) hdigit (hsquare (by omega) hbase) (by omega)
      rwa [add_assoc, add_comm (m * (n % 2)), ← hexponent] at hnext

/-- The same for the power of a base. -/
theorem powNat_induction {R B : ℕ → α → Prop} {limit n : ℕ} {base : α}
    (hmul : ∀ {a m : ℕ} {x y : α}, a + m ≤ limit → R a x → B m y → R (a + m) (x * y))
    (hsquare : ∀ {m : ℕ} {y : α}, 2 * m ≤ limit → B m y → B (2 * m) (y * y)) (hone : R 0 1.0)
    (hbase : B 1 base) (hlimit : n ≤ limit) : R n (powNat base n) := by
  have hpower := timesPower_induction hmul hsquare (Nat.lt_succ_self n) hone hbase (by omega)
  rwa [zero_add, one_mul] at hpower

end Scalar

namespace Binary64

open Scalar Float.Model Float.Model.UnpackedFloat

/-! ## Exact powers of ten -/

/-- The value of ten. -/
theorem hasValue_ten : HasValue 10.0 10 :=
  hasValue_of_key (-49) (5 * 2 ^ 50) (by decide +kernel) (by norm_num)

/-- Representable powers of ten are exact. -/
theorem hasValue_powNat_ten {n : ℕ} (h : n ≤ 22) : HasValue (powNat 10.0 n) (10 ^ n) := by
  have hproduct {a m : ℕ} {x y : Float} (hle : a + m ≤ 22) (hx : HasValue x (10 ^ a))
      (hy : HasValue y (10 ^ m)) : HasValue (x * y) (10 ^ (a + m)) := by
    have hrepresentable := isRepresentable_ten_pow hle
    have hbound : |(10 : ℝ) ^ a * 10 ^ m| ≤ 10 ^ (a + m) := by
      rw [← pow_add, abs_of_pos (by positivity)]
    obtain ⟨r, hr, hrounds⟩ := hx.mul hy hrepresentable (ten_pow_lt hle) hbound
    rw [← pow_add] at hrounds
    exact hrounds.eq_of_isRepresentable hrepresentable ▸ hr
  refine powNat_induction (R := fun a x => HasValue x (10 ^ a))
    (B := fun m y => HasValue y (10 ^ m)) hproduct ?_ ?_ ?_ h
  · intro m y hle hy
    have hsquare := hproduct (by omega) hy hy
    rwa [← two_mul] at hsquare
  · rw [pow_zero]
    exact hasValue_one
  · rw [pow_one]
    exact hasValue_ten

/-! ## Powers of ten in range -/

/-- The most by which rounding changes a number, as a fraction of it. -/
noncomputable def roundingUnit : ℝ := 2 ^ (-53 : ℤ)

/-- A rounding error is small and positive. -/
theorem roundingUnit_pos : 0 < roundingUnit := zpow_pos two_pos _

/-- The powers of ten in range stay in range with a rounding error for each factor. -/
theorem ten_pow_roundingUnit_le {n : ℕ} (h : n ≤ 308) :
    (10 * (1 + roundingUnit)) ^ n ≤ 3 * (2 : ℝ) ^ (1022 : ℤ) := by
  have hunit := roundingUnit_pos
  have hpowers : (10 * (2 ^ 53 + 1)) ^ 308 ≤ 3 * 2 ^ 1022 * (2 ^ 53) ^ 308 := by decide +kernel
  have hone : (1 : ℝ) ≤ 10 * (1 + roundingUnit) := by linarith
  refine (pow_le_pow_right₀ hone h).trans ?_
  have hscaled : 10 * (1 + roundingUnit) = 10 * (2 ^ 53 + 1) / 2 ^ 53 := by
    rw [roundingUnit, zpow_neg]
    norm_num
  rw [hscaled, div_pow, div_le_iff₀ (by positivity)]
  exact_mod_cast hpowers

/-- The powers of ten out of range stay out of range with a rounding error for each factor. -/
theorem le_ten_pow_roundingUnit {n : ℕ} (h : 309 ≤ n) :
    (2 : ℝ) ^ (1024 : ℤ) ≤ (10 * (1 - roundingUnit)) ^ n := by
  have hpowers : 2 ^ 1024 * (2 ^ 53) ^ 309 ≤ (10 * (2 ^ 53 - 1)) ^ 309 := by decide +kernel
  have hscaled : 10 * (1 - roundingUnit) = ((10 * (2 ^ 53 - 1) : ℕ) : ℝ) / 2 ^ 53 := by
    rw [roundingUnit, zpow_neg]
    norm_num
  have hone : (1 : ℝ) ≤ 10 * (1 - roundingUnit) := by
    rw [hscaled]
    norm_num
  refine le_trans ?_ (pow_le_pow_right₀ hone h)
  rw [hscaled, div_pow, le_div_iff₀ (by positivity)]
  exact_mod_cast hpowers

/-- The float is finite, and it is between one and the bound. -/
def IsBelow (bound : ℝ) (x : Float) : Prop := ∃ p, HasValue x p ∧ 1 ≤ p ∧ p ≤ bound

/-- A product in range exceeds the product of the bounds by the rounding error at most. -/
theorem IsBelow.mul {v w : ℝ} {x y : Float} (hx : IsBelow v x) (hy : IsBelow w y)
    (hrange : v * w ≤ 3 * 2 ^ (1022 : ℤ)) : IsBelow (v * w * (1 + roundingUnit)) (x * y) := by
  obtain ⟨p, hp, hpone, hpv⟩ := hx
  obtain ⟨q, hq, hqone, hqw⟩ := hy
  have hone : 1 ≤ p * q := one_le_mul_of_one_le_of_one_le hpone hqone
  have hle : p * q ≤ v * w := mul_le_mul hpv hqw (by linarith) (by linarith)
  have hgreatest : IsRepresentable (3 * 2 ^ (1022 : ℤ)) :=
    ⟨3, 1022, by norm_num, by norm_num, by norm_num⟩
  have hlt : (3 : ℝ) * 2 ^ (1022 : ℤ) < 2 ^ (1024 : ℤ) := by
    have hsplit : (2 : ℝ) ^ (1024 : ℤ) = 2 ^ (2 : ℤ) * 2 ^ (1022 : ℤ) :=
      zpow_add₀ two_ne_zero 2 1022
    rw [hsplit]
    exact mul_lt_mul_of_pos_right (by norm_num) (zpow_pos two_pos _)
  have hbound : |p * q| ≤ 3 * 2 ^ (1022 : ℤ) := by
    rw [abs_of_pos (by linarith)]
    exact hle.trans hrange
  obtain ⟨r, hr, hrounds⟩ := hp.mul hq hgreatest hlt hbound
  have herror := hrounds.error_le_mul hone (abs_of_pos (by linarith)).le
  have hunit := roundingUnit_pos
  have habove : p * q * (1 + roundingUnit) ≤ v * w * (1 + roundingUnit) :=
    mul_le_mul_of_nonneg_right hle (by linarith)
  refine ⟨r, hr, (hrounds.noneBetween 1 hasValue_one.isRepresentable).2 hone, ?_⟩
  change _ ≤ _ * roundingUnit at herror
  linarith [(abs_le.mp herror).1]

/-- What bounds a base has a rounding error less than the power has factors. The product that uses
the base adds it. -/
def IsBaseBelow (base : ℝ) (m : ℕ) (y : Float) : Prop :=
  ∃ w, w * (1 + roundingUnit) ≤ base ^ m ∧ IsBelow w y

/-- The bound of a float is positive, and a rounding error increases it. -/
theorem IsBelow.le_mul {w : ℝ} {y : Float} (h : IsBelow w y) :
    0 < w ∧ w ≤ w * (1 + roundingUnit) := by
  obtain ⟨p, -, hpone, hpw⟩ := h
  exact ⟨by linarith, le_mul_of_one_le_right (by linarith) (by linarith [roundingUnit_pos])⟩

section Below

variable {base : ℝ} {a m : ℕ} {x y : Float}

/-- The exponents of a result and a base add up in their product. -/
theorem IsBelow.mul_base (hx : IsBelow (base ^ a) x) (hy : IsBaseBelow base m y)
    (hrange : base ^ (a + m) ≤ 3 * 2 ^ (1022 : ℤ)) : IsBelow (base ^ (a + m)) (x * y) := by
  obtain ⟨w, hw, hbelow⟩ := hy
  have hpower := hx.le_mul.1
  have hproduct : base ^ a * (w * (1 + roundingUnit)) ≤ base ^ (a + m) := by
    rw [pow_add]
    exact mul_le_mul_of_nonneg_left hw hpower.le
  have hle : base ^ a * w ≤ base ^ a * (w * (1 + roundingUnit)) :=
    mul_le_mul_of_nonneg_left hbelow.le_mul.2 hpower.le
  obtain ⟨p, hp, hpone, hple⟩ := hx.mul hbelow (hle.trans (hproduct.trans hrange))
  exact ⟨p, hp, hpone, hple.trans (by rwa [mul_assoc])⟩

/-- The exponent of a base is doubled in its square. -/
theorem IsBaseBelow.square (hy : IsBaseBelow base m y)
    (hrange : base ^ (2 * m) ≤ 3 * 2 ^ (1022 : ℤ)) : IsBaseBelow base (2 * m) (y * y) := by
  obtain ⟨w, hw, hbelow⟩ := hy
  obtain ⟨hpos, hle⟩ := hbelow.le_mul
  have hpower : 0 ≤ base ^ m := le_trans (by linarith) hw
  have hsquare : w * (1 + roundingUnit) * (w * (1 + roundingUnit)) ≤ base ^ (2 * m) := by
    rw [two_mul, pow_add]
    exact mul_le_mul hw hw (by linarith) hpower
  have hproduct : w * w ≤ w * (1 + roundingUnit) * (w * (1 + roundingUnit)) :=
    mul_le_mul hle hle hpos.le (by linarith)
  exact ⟨_, by linarith, hbelow.mul hbelow (hproduct.trans (hsquare.trans hrange))⟩

end Below

/-- Powers of ten in range are finite. -/
theorem isBelow_powNat_ten {n : ℕ} (h : n ≤ 308) :
    IsBelow ((10 * (1 + roundingUnit)) ^ n) (powNat 10.0 n) := by
  refine powNat_induction (R := fun a x => IsBelow ((10 * (1 + roundingUnit)) ^ a) x)
    (B := IsBaseBelow (10 * (1 + roundingUnit))) ?_ ?_ ?_ ?_ h
  · intro a m x y hlimit hx hy
    exact hx.mul_base hy (ten_pow_roundingUnit_le hlimit)
  · intro m y hlimit hy
    exact hy.square (ten_pow_roundingUnit_le hlimit)
  · rw [pow_zero]
    exact ⟨1, hasValue_one, le_rfl, le_rfl⟩
  · exact ⟨10, by rw [pow_one], 10, hasValue_ten, by norm_num, le_rfl⟩

/-! ## Powers of ten out of range -/

/-- The float is infinite, or it is finite and at least the bound. -/
def IsAbove (bound : ℝ) (x : Float) : Prop :=
  x.toModel.unpack = .infinity .positive ∨ ∃ p, HasValue x p ∧ bound ≤ p

/-- A rounded positive number is packed as a finite float or as positive infinity. -/
theorem IsNearest.hasValue_or_infinite {v : ℝ} {u : UnpackedFloat} (h : IsNearest v u)
    (hv : 0 ≤ v) {z : Float} (hz : z.toModel = Float.Model.pack u) :
    z.toModel.unpack = .infinity .positive ∨ ∃ r, HasValue z r ∧ RoundsTo v r := by
  obtain ⟨hcanonical, hrounds⟩ := h
  rcases lt_or_ge |value u| (2 ^ (1024 : ℤ)) with hrange | hlarge
  · have hunpack := unpack_of_isCanonical hcanonical hrange hz
    exact Or.inr ⟨value u, ⟨by rw [hunpack]; exact hcanonical, by rw [hunpack]⟩, hrounds⟩
  · obtain ⟨sign, rfl⟩ | ⟨sign, m, e, hm, rfl⟩ := hcanonical.zero_or_finite
    · rw [value_zero, abs_zero] at hlarge
      exact absurd hlarge (zpow_pos two_pos _).not_ge
    · have he : 971 < e := not_le.mp fun he => ((abs_value_lt_iff hcanonical).mpr he).not_ge hlarge
      have hpos : (0 : ℝ) < m * 2 ^ e := mul_pos (by exact_mod_cast hm) (zpow_pos two_pos e)
      cases sign with
      | positive => exact Or.inl (by rw [hz, unpack_pack_of_lt he])
      | negative =>
        have hnonneg : 0 ≤ -((m : ℝ) * 2 ^ e) :=
          (hrounds.noneBetween 0 hasValue_zero.isRepresentable).2 hv
        linarith

/-- A float that stands for a positive number is unpacked with a positive sign. -/
theorem HasValue.unpack_of_pos {x : Float} {p : ℝ} (h : HasValue x p) (hp : 0 < p) :
    ∃ m e hm, x.toModel.unpack = .finite .positive m e hm := by
  obtain ⟨hx, rfl⟩ := h
  obtain ⟨s, hunpack⟩ | ⟨s, m, e, hm, hunpack⟩ := hx.zero_or_finite
  · rw [hunpack, value_zero] at hp
    exact absurd hp (lt_irrefl 0)
  · cases s with
    | positive => exact ⟨m, e, hm, hunpack⟩
    | negative =>
      rw [hunpack] at hp
      have hneg : 0 < -((m : ℝ) * 2 ^ e) := hp
      have : (0 : ℝ) ≤ m * 2 ^ e := by positivity
      linarith

/-- A product falls short of the product of the bounds by the rounding error at most. -/
theorem IsAbove.mul {v w : ℝ} {x y : Float} (hx : IsAbove v x) (hy : IsAbove w y) (hv : 1 ≤ v)
    (hw : 1 ≤ w) : IsAbove (v * w * (1 - roundingUnit)) (x * y) := by
  have hinfinite (h : UnpackedFloat.mul Format.binary64 x.toModel.unpack y.toModel.unpack =
      .infinity .positive) : IsAbove (v * w * (1 - roundingUnit)) (x * y) := by
    refine Or.inl ?_
    change (Float.Model.pack (UnpackedFloat.mul _ x.toModel.unpack y.toModel.unpack)).unpack = _
    rw [h]
    rfl
  rcases hx with hx | ⟨p, hp, hvp⟩ <;> rcases hy with hy | ⟨q, hq, hwq⟩
  · exact hinfinite (by rw [hx, hy]; rfl)
  · obtain ⟨m, e, hm, hunpack⟩ := hq.unpack_of_pos (by linarith)
    exact hinfinite (by rw [hx, hunpack]; rfl)
  · obtain ⟨m, e, hm, hunpack⟩ := hp.unpack_of_pos (by linarith)
    exact hinfinite (by rw [hunpack, hy]; rfl)
  · have hle : v * w ≤ p * q := mul_le_mul hvp hwq (by linarith) (by linarith)
    have hone : 1 ≤ p * q := (one_le_mul_of_one_le_of_one_le hv hw).trans hle
    obtain ⟨hpx, rfl⟩ := hp
    obtain ⟨hqy, rfl⟩ := hq
    refine ((isNearest_mul hpx hqy).hasValue_or_infinite (by linarith) rfl).imp_right ?_
    rintro ⟨r, hr, hrounds⟩
    have herror := hrounds.error_le_mul hone (abs_of_pos (by linarith)).le
    have hunit : roundingUnit ≤ 1 := zpow_le_one_of_nonpos₀ one_le_two (by norm_num)
    have hbelow := mul_le_mul_of_nonneg_right hle (sub_nonneg.mpr hunit)
    change _ ≤ _ * roundingUnit at herror
    exact ⟨r, hr, by linarith [(abs_le.mp herror).2]⟩

/-- What bounds a base from below has a rounding error less than the power has factors. -/
def IsBaseAbove (base : ℝ) (m : ℕ) (y : Float) : Prop :=
  ∃ w, base ^ m ≤ w * (1 - roundingUnit) ∧ 1 ≤ w ∧ IsAbove w y

/-- A smaller bound holds as well. -/
theorem IsAbove.mono {v w : ℝ} {x : Float} (h : IsAbove w x) (hle : v ≤ w) : IsAbove v x :=
  h.imp_right fun ⟨p, hp, hwp⟩ => ⟨p, hp, hle.trans hwp⟩

section Above

variable {base : ℝ} {a m : ℕ} {x y : Float}

/-- The exponents of a result and a base add up in their product. -/
theorem IsAbove.mul_base (hx : IsAbove (base ^ a) x) (hy : IsBaseAbove base m y)
    (hone : 1 ≤ base) : IsAbove (base ^ (a + m)) (x * y) := by
  obtain ⟨w, hw, hwone, habove⟩ := hy
  have hpower : 1 ≤ base ^ a := one_le_pow₀ hone
  have hproduct : base ^ (a + m) ≤ base ^ a * w * (1 - roundingUnit) := by
    rw [pow_add, mul_assoc]
    exact mul_le_mul_of_nonneg_left hw (by linarith)
  exact (hx.mul habove hpower hwone).mono hproduct

/-- The exponent of a base is doubled in its square. -/
theorem IsBaseAbove.square (hy : IsBaseAbove base m y) (hone : 1 ≤ base) :
    IsBaseAbove base (2 * m) (y * y) := by
  obtain ⟨w, hw, hwone, habove⟩ := hy
  have hpower : 1 ≤ base ^ m := one_le_pow₀ hone
  have hgreater : 1 ≤ w * (1 - roundingUnit) := hpower.trans hw
  have hsquare : base ^ (2 * m) ≤ w * (1 - roundingUnit) * (w * (1 - roundingUnit)) := by
    rw [two_mul, pow_add]
    exact mul_le_mul hw hw (by linarith) (by linarith)
  refine ⟨w * w * (1 - roundingUnit), hsquare.trans (by linarith), ?_,
    habove.mul habove hwone hwone⟩
  rw [mul_assoc]
  exact one_le_mul_of_one_le_of_one_le hwone hgreater

end Above

/-- Powers of ten are infinite or close to the powers. -/
theorem isAbove_powNat_ten (n : ℕ) :
    IsAbove ((10 * (1 - roundingUnit)) ^ n) (powNat 10.0 n) := by
  have hone : 1 ≤ 10 * (1 - roundingUnit) := by
    rw [roundingUnit, zpow_neg]
    norm_num
  refine powNat_induction (R := fun a x => IsAbove ((10 * (1 - roundingUnit)) ^ a) x)
    (B := IsBaseAbove (10 * (1 - roundingUnit))) ?_ ?_ ?_ ?_ le_rfl
  · intro a m x y _ hx hy
    exact hx.mul_base hy hone
  · intro m y _ hy
    exact hy.square hone
  · rw [pow_zero]
    exact Or.inr ⟨1, hasValue_one, le_rfl⟩
  · exact ⟨10, by rw [pow_one], by norm_num, Or.inr ⟨10, hasValue_ten, le_rfl⟩⟩

/-- Powers of ten out of range are infinite. -/
theorem unpack_powNat_ten {n : ℕ} (h : 309 ≤ n) :
    (powNat 10.0 n : Float).toModel.unpack = .infinity .positive := by
  refine (isAbove_powNat_ten n).resolve_right ?_
  rintro ⟨p, hp, hle⟩
  have hrange := (le_abs_self p).trans_lt hp.abs_lt
  exact hrange.not_ge ((le_ten_pow_roundingUnit h).trans hle)

end Binary64

end ColorWords
