import ColorWords.Proofs.Scalar.Alike
import ColorWords.Proofs.Scalar.Binary64MultiplyAdd

/-!
# Signs of zeros in 64-bit floats

Adding a zero to a float gives the float back unless it is a zero too, and a product or quotient of
a zero is a zero or no number whatever the sign of the zero is. So the sign of a zero makes no
difference to the results of float arithmetic but to the signs of zeros among them.
-/

namespace ColorWords.Binary64

open Float.Model Float.Model.UnpackedFloat

/-! ## Zeros -/

/-- The zeros among floats are those that are unpacked to zeros. -/
theorem isZero_iff (x : Float) : IsZero x ↔ ∃ sign, x.toModel.unpack = .zero sign := by
  rw [IsZero, le_zero_iff, zero_le_iff]
  rcases x.toModel.unpack with (_ | _) | _ | s | ⟨_ | _, m, e, hm⟩ <;> simp [HasSign]

/-- The zeros among floats are those that stand for zero. -/
theorem HasValue.isZero_iff {x : Float} {p : ℝ} (h : HasValue x p) : IsZero x ↔ p = 0 := by
  rw [IsZero, h.le_iff hasValue_zero, hasValue_zero.le_iff h]
  exact ⟨fun hle => le_antisymm hle.1 hle.2, fun hzero => ⟨hzero.le, hzero.ge⟩⟩

/-- Floats that stand for the same number are alike. -/
theorem HasValue.alike {x y : Float} {p : ℝ} (hx : HasValue x p) (hy : HasValue y p) :
    Alike x y := by
  rcases eq_or_ne p 0 with hzero | hne
  · exact Or.inr ⟨hx.isZero_iff.mpr hzero, hy.isZero_iff.mpr hzero⟩
  · exact Or.inl (hx.eq_of_isPlain hy (hx.isPlain hne) (hy.isPlain hne))

/-- Floats with the same key are the same, or both are zeros. -/
theorem alike_of_floatKey?_eq {x y : Float} (h : floatKey? x = floatKey? y) : Alike x y := by
  have hunpack : x.toModel.unpack = y.toModel.unpack ∨
      (∃ s, x.toModel.unpack = .zero s) ∧ ∃ s, y.toModel.unpack = .zero s := by
    rw [floatKey?, floatKey?] at h
    generalize x.toModel.unpack = u at h ⊢
    generalize y.toModel.unpack = v at h ⊢
    rcases u with (_ | _) | _ | s | ⟨_ | _, m, e, hm⟩ <;>
      rcases v with (_ | _) | _ | s' | ⟨_ | _, n, k, hn⟩ <;> simp_all [key?]
  rcases hunpack with hsame | ⟨hx, hy⟩
  · exact Or.inl (congrArg Float.ofModel (eq_of_unpack_eq hsame))
  · exact Or.inr ⟨(isZero_iff x).mpr hx, (isZero_iff y).mpr hy⟩

/-- Floats that compare as equal are the same, or both are zeros. -/
theorem alike_of_same {x y : Float} (h : Scalar.same x y = true) : Alike x y := by
  rw [Scalar.same, Bool.and_eq_true, decide_eq_true_eq, decide_eq_true_eq, le_iff, le_iff] at h
  obtain ⟨⟨a, b, ha, hb, hab⟩, b', a', hb', ha', hba⟩ := h
  obtain rfl := Option.some.inj (ha.symm.trans ha')
  obtain rfl := Option.some.inj (hb.symm.trans hb')
  exact alike_of_floatKey?_eq (by rw [ha, hb, le_antisymm hab hba])

/-- A zero stands for zero. -/
theorem hasValue_of_isZero {x : Float} (h : IsZero x) : HasValue x 0 := by
  obtain ⟨s, hunpack⟩ := (isZero_iff x).mp h
  rw [HasValue, hunpack, value_zero]
  exact ⟨trivial, rfl⟩

/-! ## Results -/

/-- Results are alike if they are packed from the same, or from zeros. -/
theorem alike_of_pack {x y : Float} {u v : UnpackedFloat} (hx : x.toModel = Float.Model.pack u)
    (hy : y.toModel = Float.Model.pack v)
    (h : u = v ∨ ∃ s s', u = .zero s ∧ v = .zero s') : Alike x y := by
  rcases h with rfl | ⟨s, s', rfl, rfl⟩
  · exact Or.inl (congrArg Float.ofModel (hx.trans hy.symm))
  · refine Or.inr ⟨(isZero_iff x).mpr ⟨s, ?_⟩, (isZero_iff y).mpr ⟨s', ?_⟩⟩
    · rw [hx]
      cases s <;> rfl
    · rw [hy]
      cases s' <;> rfl

section Operations

variable {x x' : Float}

/-- Adding to a zero changes nothing but the sign of a zero. -/
theorem alike_zero_add (hx : IsZero x) (y : Float) : Alike (x + y) y := by
  obtain ⟨s, hx⟩ := (isZero_iff x).mp hx
  refine alike_of_pack (u := UnpackedFloat.add Format.binary64 x.toModel.unpack y.toModel.unpack)
    rfl (pack_unpack y) ?_
  rw [hx]
  rcases y.toModel.unpack with s' | _ | s' | ⟨s', n, k, hn⟩
  · exact Or.inl rfl
  · exact Or.inl rfl
  · cases s <;> cases s' <;> exact Or.inr ⟨_, _, rfl, rfl⟩
  · exact Or.inl rfl

/-- Adding a zero changes nothing but the sign of a zero. -/
theorem alike_add_zero (y : Float) (hx : IsZero x) : Alike (y + x) y := by
  obtain ⟨s, hx⟩ := (isZero_iff x).mp hx
  refine alike_of_pack (u := UnpackedFloat.add Format.binary64 y.toModel.unpack x.toModel.unpack)
    rfl (pack_unpack y) ?_
  rw [hx]
  rcases y.toModel.unpack with s' | _ | s' | ⟨s', n, k, hn⟩
  · exact Or.inl rfl
  · exact Or.inl rfl
  · cases s <;> cases s' <;> exact Or.inr ⟨_, _, rfl, rfl⟩
  · exact Or.inl rfl

/-- The negative of a zero is a zero. -/
theorem isZero_neg (hx : IsZero x) : IsZero (-x) := by
  obtain ⟨s, hx⟩ := (isZero_iff x).mp hx
  exact (isZero_iff _).mpr ⟨-s, by rw [unpack_neg, hx]; rfl⟩

/-- Subtracting a float adds its negative. -/
theorem alike_sub (x y : Float) : Alike (x - y) (x + -y) := by
  refine alike_of_pack (u := UnpackedFloat.sub Format.binary64 x.toModel.unpack y.toModel.unpack)
    (v := UnpackedFloat.add Format.binary64 x.toModel.unpack (-y).toModel.unpack) rfl rfl ?_
  rw [unpack_neg, Binary64.sub_eq_add_neg]
  exact Or.inl rfl

/-- A product of a zero does not depend on the sign of the zero unless it is a zero. -/
theorem alike_zero_mul (hx : IsZero x) (hx' : IsZero x') (y : Float) :
    Alike (x * y) (x' * y) ∧ Alike (y * x) (y * x') := by
  obtain ⟨s, hx⟩ := (isZero_iff x).mp hx
  obtain ⟨s', hx'⟩ := (isZero_iff x').mp hx'
  constructor
  · refine alike_of_pack
      (u := UnpackedFloat.mul Format.binary64 x.toModel.unpack y.toModel.unpack)
      (v := UnpackedFloat.mul Format.binary64 x'.toModel.unpack y.toModel.unpack) rfl rfl ?_
    rw [hx, hx']
    rcases y.toModel.unpack with t | _ | t | ⟨t, n, k, hn⟩
    · exact Or.inl rfl
    · exact Or.inl rfl
    · exact Or.inr ⟨_, _, rfl, rfl⟩
    · exact Or.inr ⟨_, _, rfl, rfl⟩
  · refine alike_of_pack
      (u := UnpackedFloat.mul Format.binary64 y.toModel.unpack x.toModel.unpack)
      (v := UnpackedFloat.mul Format.binary64 y.toModel.unpack x'.toModel.unpack) rfl rfl ?_
    rw [hx, hx']
    rcases y.toModel.unpack with t | _ | t | ⟨t, n, k, hn⟩
    · exact Or.inl rfl
    · exact Or.inl rfl
    · exact Or.inr ⟨_, _, rfl, rfl⟩
    · exact Or.inr ⟨_, _, rfl, rfl⟩

/-- A quotient of a zero does not depend on the sign of the zero unless it is a zero. -/
theorem alike_zero_div (hx : IsZero x) (hx' : IsZero x') (y : Float) :
    Alike (x / y) (x' / y) := by
  obtain ⟨s, hx⟩ := (isZero_iff x).mp hx
  obtain ⟨s', hx'⟩ := (isZero_iff x').mp hx'
  refine alike_of_pack (u := UnpackedFloat.div Format.binary64 x.toModel.unpack y.toModel.unpack)
    (v := UnpackedFloat.div Format.binary64 x'.toModel.unpack y.toModel.unpack) rfl rfl ?_
  rw [hx, hx']
  rcases y.toModel.unpack with t | _ | t | ⟨t, n, k, hn⟩
  · exact Or.inr ⟨_, _, rfl, rfl⟩
  · exact Or.inl rfl
  · exact Or.inl rfl
  · exact Or.inr ⟨_, _, rfl, rfl⟩

/-- If a factor is a zero, multiplying and adding are separate operations. -/
theorem alike_multiplyAdd_of_factor {y : Float} (h : IsZero x ∨ IsZero y) (z : Float) :
    Alike (multiplyAdd x y z) (x * y + z) := by
  rw [multiplyAdd_of_factor (h.imp hasValue_of_isZero hasValue_of_isZero)]
  exact Alike.refl _

/-- Adding a zero to a product changes nothing but the sign of a zero. -/
theorem alike_multiplyAdd_of_term (x y : Float) {z : Float} (hz : IsZero z) :
    Alike (multiplyAdd x y z) (x * y) := by
  rw [multiplyAdd_of_term (hasValue_of_isZero hz)]
  split
  · exact alike_add_zero _ hz
  · exact Alike.refl _

end Operations

/-! ## Means of one float -/

/-- A float between minus one and one is finite. -/
theorem exists_hasValue_of_within_one {x : Float} (h : Within (-1.0) 1.0 x) :
    ∃ p, HasValue x p ∧ |p| ≤ 1 := by
  obtain ⟨p, hp, hlow, hhigh⟩ := exists_hasValue_of_within hasValue_one.neg hasValue_one h
  exact ⟨p, hp, abs_le.mpr ⟨hlow, hhigh⟩⟩

/-- The value of the natural number one. -/
theorem hasValue_ofNat_one : HasValue (Scalar.ofNat 1) 1 :=
  hasValue_of_key (-52) (2 ^ 52) (by decide +kernel) (by norm_num)

/-- The negative of a float and the float add up to zero. -/
theorem isZero_neg_add_self {x : Float} (h : Within (-1.0) 1.0 x) : IsZero (-x + x) := by
  obtain ⟨p, hp, -⟩ := exists_hasValue_of_within_one h
  have hzero : -p + p = 0 := neg_add_cancel p
  have hrange : |-p + p| ≤ 2 ^ (1023 : ℤ) := by
    rw [hzero, abs_zero]
    exact (zpow_pos two_pos _).le
  have hsum := hp.neg.add_exact hp (hzero ▸ hasValue_zero.isRepresentable) hrange
  exact hsum.isZero_iff.mpr hzero

/-- The difference of a float and itself is zero. -/
theorem isZero_sub_self {x : Float} (h : Within (-1.0) 1.0 x) : IsZero (x - x) := by
  obtain ⟨p, hp, -⟩ := exists_hasValue_of_within_one h
  exact hp.sub_itself.isZero_iff.mpr rfl

/-- Dividing by one changes nothing but the sign of a zero. -/
theorem alike_div_one {x : Float} (h : Within (-1.0) 1.0 x) : Alike (x / Scalar.ofNat 1) x := by
  obtain ⟨p, hp, hle⟩ := exists_hasValue_of_within_one h
  have hone : (1 : ℝ) < 2 ^ (1024 : ℤ) := one_lt_zpow₀ one_lt_two (by norm_num)
  obtain ⟨r, hr, hrounds⟩ := hp.div hasValue_ofNat_one one_ne_zero hasValue_one.isRepresentable hone
    (by rwa [div_one])
  rw [div_one] at hrounds
  rw [hrounds.eq_of_isRepresentable hp.isRepresentable] at hr
  exact hr.alike hp

/-- The sign of a zero makes no difference to float arithmetic but to signs of zeros. -/
instance instSignedZerosFloat : SignedZeros Float where
  isZero_neg := isZero_neg
  alike_zero_add := alike_zero_add
  alike_add_zero x _ hy := alike_add_zero x hy
  alike_zero_sub hx y := (alike_sub _ y).trans (alike_zero_add hx (-y))
  alike_sub_zero x _ hy := (alike_sub x _).trans (alike_add_zero x (isZero_neg hy))
  alike_zero_mul hx hx' y := (alike_zero_mul hx hx' y).1
  alike_mul_zero x _ _ hy hy' := (alike_zero_mul hy hy' x).2
  alike_zero_div := alike_zero_div
  multiplyAdd_of_factor := alike_multiplyAdd_of_factor
  multiplyAdd_of_term := alike_multiplyAdd_of_term
  isZero_sub_self := isZero_sub_self
  isZero_neg_add_self := isZero_neg_add_self
  alike_div_one := alike_div_one
  half_le_one := by decide +kernel
  neg_one_le_neg_half := by decide +kernel
  zero_le_linearLimit := by decide +kernel
  zero_le_encodeLimit := by decide +kernel
  zero_lt_powerless := by decide +kernel
  half_turn := by decide +kernel
  neg_half_turn_lt_zero := by decide +kernel
  zero_le_half_turn := by decide +kernel

end ColorWords.Binary64
