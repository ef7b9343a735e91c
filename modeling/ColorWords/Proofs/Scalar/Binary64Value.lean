import ColorWords.Proofs.Scalar.Binary64Rounding

/-!
# The numbers that 64-bit floats stand for

A finite float stands for a real number, and finite floats compare as these numbers. Packing a
rounded float keeps its number unless it is too large, in which case it becomes infinite. So the
results of float arithmetic on finite floats compare with every finite float as the exact results
do, up to equality.
-/

namespace ColorWords.Binary64

open Float.Model Float.Model.UnpackedFloat

/-! ## Packing -/

/-- The significand with its implicit bit. -/
theorem toNat_implicit (fraction : BitVec 52) :
    (1#1 ++ fraction).toNat = 2 ^ 52 + fraction.toNat := by
  rw [BitVec.toNat_append, ← Nat.shiftLeft_add_eq_or_of_lt fraction.isLt]
  rfl

/-- A significand of 53 bits is its fraction with the implicit bit. -/
theorem implicit_add_fraction {m : ℕ} (hm : m ≠ 0) (hlog : m.log2 = 52) :
    2 ^ 52 + (BitVec.ofNat 52 m).toNat = m := by
  have hlow : 2 ^ 52 ≤ m := hlog ▸ Nat.log2_self_le hm
  have hhigh : m < 2 ^ (m.log2 + 1) := Nat.lt_log2_self
  rw [hlog] at hhigh
  rw [BitVec.toNat_ofNat]
  omega

/-- All significands have at most 53 bits. -/
theorem significand_lt {b : BitVec 64} {sign : Sign} {m : ℕ} {e : ℤ} {hm : 0 < m}
    (h : UnpackedFloat.unpack Format.binary64 b = .finite sign m e hm) : m < 2 ^ 53 := by
  have hfraction : (@unpackMantissa Format.binary64 b).toNat < 2 ^ 52 :=
    (@unpackMantissa Format.binary64 b).isLt
  unfold UnpackedFloat.unpack at h
  dsimp only at h
  split at h
  · split at h <;> cases h
  · split at h
    · split at h <;> cases h
      omega
    · cases h
      rw [toNat_implicit]
      omega

/-- The sign is unpacked as it was packed. -/
theorem ofBitVec_unpackSign (sign : Sign) (exponent : BitVec 11) (fraction : BitVec 52) :
    Sign.ofBitVec (unpackSign (packComponents Format.binary64 sign exponent fraction)) = sign := by
  have hbit : (packComponents Format.binary64 sign exponent fraction).getLsbD 63 =
      sign.toBitVec.getLsbD 0 := by
    rw [packComponents, BitVec.getLsbD_append, if_neg (by decide), BitVec.getLsbD_append,
      if_neg (by decide)]
  have hsign : unpackSign (packComponents Format.binary64 sign exponent fraction) =
      sign.toBitVec := by
    ext i hi
    obtain rfl : i = 0 := by omega
    simpa [unpackSign] using hbit
  rw [hsign]
  cases sign <;> rfl

/-- A float with an exponent field between the ends is normal. -/
theorem unpack_packComponents_normal (sign : Sign) {exponent : BitVec 11} {fraction : BitVec 52}
    (hfinite : exponent ≠ -1#11) (hnormal : exponent ≠ 0#11) (hm : 0 < 2 ^ 52 + fraction.toNat) :
    UnpackedFloat.unpack Format.binary64 (packComponents Format.binary64 sign exponent fraction) =
      .finite sign (2 ^ 52 + fraction.toNat) (exponent.toNat - 1075) hm := by
  simp only [UnpackedFloat.unpack, unpackMantissa_packComponents, unpackExponent_packComponents,
    ofBitVec_unpackSign]
  rw [if_neg hfinite, if_neg hnormal]
  simp only [toNat_implicit]
  rfl

/-- A float with exponent field zero is subnormal unless it is zero. -/
theorem unpack_packComponents_subnormal (sign : Sign) {fraction : BitVec 52}
    (hm : 0 < fraction.toNat) :
    UnpackedFloat.unpack Format.binary64 (packComponents Format.binary64 sign 0#11 fraction) =
      .finite sign fraction.toNat (-1074) hm := by
  have hfraction : fraction ≠ 0#52 := by
    rintro rfl
    simp at hm
  simp only [UnpackedFloat.unpack, unpackMantissa_packComponents, unpackExponent_packComponents,
    ofBitVec_unpackSign]
  rw [if_neg (by decide), if_pos trivial, dif_neg hfraction]
  rfl

/-- Finite floats are canonical, and their exponents are limited. -/
theorem isCanonical_of_unpack {b : BitVec 64} {sign : Sign} {m : ℕ} {e : ℤ} {hm : 0 < m}
    (h : UnpackedFloat.unpack Format.binary64 b = .finite sign m e hm) :
    IsCanonical (.finite sign m e hm) ∧ e ≤ 971 := by
  have hlt := significand_lt h
  have hfield : (@unpackExponent Format.binary64 b).toNat < 2 ^ 11 :=
    (@unpackExponent Format.binary64 b).isLt
  unfold UnpackedFloat.unpack at h
  dsimp only at h
  split at h
  · split at h <;> cases h
  · next hfinite =>
    have hones : (@unpackExponent Format.binary64 b).toNat ≠ 2047 := fun heq =>
      hfinite (BitVec.eq_of_toNat_eq heq)
    split at h
    · next hzero =>
      split at h <;> cases h
      rw [hzero]
      exact ⟨⟨hlt, by decide, Or.inr (by decide)⟩, by decide⟩
    · next hnormal =>
      have hpos : (@unpackExponent Format.binary64 b).toNat ≠ 0 := fun heq =>
        hnormal (BitVec.eq_of_toNat_eq heq)
      cases h
      have hbits := toNat_implicit (@unpackMantissa Format.binary64 b)
      have hbias : (Format.binary64.exponentBias + (52 : ℕ) : ℤ) = 1075 := by decide
      rw [hbias]
      exact ⟨⟨hlt, by omega, Or.inl (by omega)⟩, by omega⟩

/-- A canonical float is packed without loss if its exponent is not too large. -/
theorem unpack_pack_of_le {sign : Sign} {m : ℕ} {e : ℤ} {hm : 0 < m}
    (h : IsCanonical (.finite sign m e hm)) (he : e ≤ 971) :
    (Float.Model.pack (.finite sign m e hm)).unpack = .finite sign m e hm := by
  change UnpackedFloat.unpack Format.binary64 (UnpackedFloat.pack Format.binary64 _) = _
  obtain ⟨hlt, hfinest, hbits⟩ := h
  have hbiased : (e + Format.binary64.exponentBias + (52 : ℕ)).toNat = (e + 1075).toNat := by
    simp only [Format.exponentBias]
    norm_num
    omega
  simp only [UnpackedFloat.pack, hbiased]
  rw [if_neg (by norm_num; omega)]
  split
  · next hnormal =>
    have hmod : (BitVec.ofNat 11 (e + 1075).toNat).toNat = (e + 1075).toNat := by
      rw [BitVec.toNat_ofNat, Nat.mod_eq_of_lt (by omega)]
    have hfraction := implicit_add_fraction hm.ne' (Nat.succ.inj hnormal)
    have hones : BitVec.ofNat 11 (e + 1075).toNat ≠ -1#11 := fun heq => by
      have hvalue := congrArg BitVec.toNat heq
      rw [hmod] at hvalue
      simp at hvalue
      omega
    have hzero : BitVec.ofNat 11 (e + 1075).toNat ≠ 0#11 := fun heq => by
      have hvalue := congrArg BitVec.toNat heq
      rw [hmod] at hvalue
      simp at hvalue
      omega
    rw [unpack_packComponents_normal sign hones hzero (by omega)]
    simp only [hfraction, hmod, UnpackedFloat.finite.injEq, true_and]
    omega
  · next hsubnormal =>
    have hsmall : m < 2 ^ 52 := by
      by_contra hlarge
      exact hsubnormal (congrArg (· + 1) ((Nat.log2_eq_iff hm.ne').mpr ⟨by omega, hlt⟩))
    have hfraction : (BitVec.ofNat 52 m).toNat = m := by
      rw [BitVec.toNat_ofNat, Nat.mod_eq_of_lt hsmall]
    rw [unpack_packComponents_subnormal sign (by omega)]
    simp only [hfraction, UnpackedFloat.finite.injEq, true_and]
    omega

/-- A canonical float is packed as infinite if its exponent is too large. -/
theorem unpack_pack_of_lt {sign : Sign} {m : ℕ} {e : ℤ} {hm : 0 < m} (he : 971 < e) :
    (Float.Model.pack (.finite sign m e hm)).unpack = .infinity sign := by
  change UnpackedFloat.unpack Format.binary64 (UnpackedFloat.pack Format.binary64 _) = _
  have hbiased : (e + Format.binary64.exponentBias + (52 : ℕ)).toNat = (e + 1075).toNat := by
    simp only [Format.exponentBias]
    norm_num
    omega
  simp only [UnpackedFloat.pack, hbiased]
  rw [if_pos (by norm_num; omega), packedInfinity]
  simp only [UnpackedFloat.unpack, unpackMantissa_packComponents, unpackExponent_packComponents,
    ofBitVec_unpackSign]
  rfl

/-! ## Comparisons -/

/-- The float is finite and stands for the number. -/
def HasValue (x : Float) (q : ℝ) : Prop :=
  IsCanonical x.toModel.unpack ∧ value x.toModel.unpack = q

/-- Of canonical significands with different exponents, the one with the smaller exponent stands for
the smaller number. -/
theorem scaled_lt_scaled {m n : ℕ} {e k : ℤ} (hm : m < 2 ^ 53) (hn : 2 ^ 52 ≤ n) (hek : e < k) :
    (m : ℝ) * 2 ^ e < n * 2 ^ k := by
  have hpow : (0 : ℝ) < 2 ^ e := zpow_pos two_pos e
  have hmcast : (m : ℝ) < 2 ^ 53 := by exact_mod_cast hm
  have hncast : (2 : ℝ) ^ 52 ≤ n := by exact_mod_cast hn
  calc (m : ℝ) * 2 ^ e < 2 ^ 53 * 2 ^ e := mul_lt_mul_of_pos_right hmcast hpow
    _ = 2 ^ 52 * 2 ^ (e + 1) := by rw [zpow_add₀ two_ne_zero]; ring
    _ ≤ 2 ^ 52 * 2 ^ k :=
      mul_le_mul_of_nonneg_left (zpow_le_zpow_right₀ one_le_two (by omega)) (by positivity)
    _ ≤ n * 2 ^ k := mul_le_mul_of_nonneg_right hncast (zpow_pos two_pos k).le

/-- The key of a canonical float determines the order of the numbers. -/
theorem value_lt_of_key_lt {u v : UnpackedFloat} (hu : IsCanonical u) (hv : IsCanonical v)
    {a b : ℤ ×ₗ ℤ ×ₗ ℤ} (ha : key? u = some a) (hb : key? v = some b) (hab : a < b) :
    value u < value v := by
  have hscaled {m n : ℕ} {e k : ℤ} (hm : m < 2 ^ 53) (hn : 2 ^ 52 ≤ n ∨ k = -1074)
      (he : -1074 ≤ e) (hlt : e < k ∨ e = k ∧ m < n) : (m : ℝ) * 2 ^ e < n * 2 ^ k := by
    rcases hlt with hek | ⟨rfl, hmn⟩
    · exact scaled_lt_scaled hm (hn.resolve_right (by omega)) hek
    · exact mul_lt_mul_of_pos_right (by exact_mod_cast hmn) (zpow_pos two_pos e)
  have hpos {m : ℕ} (hm : 0 < m) (e : ℤ) : (0 : ℝ) < m * 2 ^ e :=
    mul_pos (by exact_mod_cast hm) (zpow_pos two_pos e)
  rcases u with _ | _ | _ | ⟨_ | _, m, e, hm⟩ <;> try exact hu.elim
  all_goals rcases v with _ | _ | _ | ⟨_ | _, n, k, hn⟩ <;> try exact hv.elim
  all_goals
    simp only [key?, Option.some.injEq] at ha hb
    subst ha hb
    -- Keys that are in the wrong order are gone after this.
    (simp [Prod.Lex.toLex_lt_toLex] at hab) <;> simp only [value, withSign]
  · exact hpos hn k
  · exact neg_lt_zero.mpr (hpos hm e)
  · exact neg_lt_neg (hscaled hv.1 hu.2.2 hv.2.1 (by omega))
  · exact (neg_lt_zero.mpr (hpos hm e)).trans (hpos hn k)
  · exact hscaled hu.1 hv.2.2 hu.2.1 hab

/-- A canonical float has a key. -/
theorem exists_key_of_isCanonical {u : UnpackedFloat} (hu : IsCanonical u) :
    ∃ a, key? u = some a := by
  rcases u with _ | _ | _ | ⟨_ | _, m, e, hm⟩
  · exact hu.elim
  · exact hu.elim
  all_goals exact ⟨_, rfl⟩

/-- Canonical floats with the same key stand for the same number. -/
theorem value_eq_of_key_eq {u v : UnpackedFloat} (hu : IsCanonical u) (hv : IsCanonical v)
    (h : key? u = key? v) : value u = value v := by
  rcases u with _ | _ | _ | ⟨_ | _, m, e, hm⟩ <;> try exact hu.elim
  all_goals rcases v with _ | _ | _ | ⟨_ | _, n, k, hn⟩ <;> try exact hv.elim
  all_goals (simp [key?] at h) <;> simp [value, h]

/-- Finite floats compare as the numbers that they stand for. -/
theorem HasValue.le_iff {x y : Float} {p q : ℝ} (hx : HasValue x p) (hy : HasValue y q) :
    x ≤ y ↔ p ≤ q := by
  obtain ⟨hx, rfl⟩ := hx
  obtain ⟨hy, rfl⟩ := hy
  obtain ⟨a, ha⟩ := exists_key_of_isCanonical hx
  obtain ⟨b, hb⟩ := exists_key_of_isCanonical hy
  have hkey : x ≤ y ↔ a ≤ b := by
    rw [Binary64.le_iff]
    constructor
    · rintro ⟨a', b', ha', hb', hab⟩
      obtain rfl := Option.some.inj (ha.symm.trans ha')
      obtain rfl := Option.some.inj (hb.symm.trans hb')
      exact hab
    · exact fun hab => ⟨a, b, ha, hb, hab⟩
  rw [hkey]
  rcases lt_trichotomy a b with hab | rfl | hba
  · exact iff_of_true hab.le (value_lt_of_key_lt hx hy ha hb hab).le
  · exact iff_of_true le_rfl (value_eq_of_key_eq hx hy (ha.trans hb.symm)).le
  · exact iff_of_false hba.not_ge (value_lt_of_key_lt hy hx hb ha hba).not_ge

/-- So they do for strict comparisons. -/
theorem HasValue.lt_iff {x y : Float} {p q : ℝ} (hx : HasValue x p) (hy : HasValue y q) :
    x < y ↔ p < q := by
  rw [OrderedScalar.lt_iff, hx.le_iff hy, hy.le_iff hx, lt_iff_le_not_ge]

/-- A float is finite unless it is infinite or no number. -/
theorem exists_hasValue_or (x : Float) :
    (∃ q, HasValue x q) ∨ (∃ sign, x.toModel.unpack = .infinity sign) ∨
      x.toModel.unpack = .notANumber := by
  unfold HasValue
  rcases h : x.toModel.unpack with sign | _ | sign | ⟨sign, m, e, hm⟩
  · exact Or.inr (Or.inl ⟨sign, rfl⟩)
  · exact Or.inr (Or.inr rfl)
  · exact Or.inl ⟨_, trivial, rfl⟩
  · exact Or.inl ⟨_, (isCanonical_of_unpack h).1, rfl⟩

/-- The keys of finite floats are between those of the infinities. -/
theorem key_between_infinities {u : UnpackedFloat} (hu : IsCanonical u) {a : ℤ ×ₗ ℤ ×ₗ ℤ}
    (ha : key? u = some a) : toLex (-2, toLex (0, 0)) < a ∧ a < toLex (2, toLex (0, 0)) := by
  rcases u with _ | _ | _ | ⟨_ | _, m, e, hm⟩ <;> try exact hu.elim
  all_goals
    simp only [key?, Option.some.injEq] at ha
    subst ha
    simp [Prod.Lex.toLex_lt_toLex]

/-- A float between two finite floats is finite. -/
theorem exists_hasValue_of_within {low high x : Float} {p q : ℝ} (hlow : HasValue low p)
    (hhigh : HasValue high q) (h : Within low high x) : ∃ r, HasValue x r ∧ p ≤ r ∧ r ≤ q := by
  obtain ⟨r, hr⟩ : ∃ r, HasValue x r := by
    obtain ⟨a, b, ha, hb, hab⟩ := (Binary64.le_iff _ _).mp h.1
    obtain ⟨b', c, hb', hc, hbc⟩ := (Binary64.le_iff _ _).mp h.2
    obtain rfl := Option.some.inj (hb.symm.trans hb')
    have habove := (key_between_infinities hlow.1 ha).1.trans_le hab
    have hbelow := hbc.trans_lt (key_between_infinities hhigh.1 hc).2
    rw [floatKey?] at hb
    rcases exists_hasValue_or x with hfinite | ⟨_ | _, hx⟩ | hx
    · exact hfinite
    · rw [hx] at hb
      exact absurd habove (Option.some.inj hb ▸ lt_irrefl _)
    · rw [hx] at hb
      exact absurd hbelow (Option.some.inj hb ▸ lt_irrefl _)
    · rw [hx] at hb
      cases hb
  exact ⟨r, hr, (hlow.le_iff hr).mp h.1, (hr.le_iff hhigh).mp h.2⟩

/-- The sign does not change the magnitude of a number. -/
theorem abs_withSign (sign : Sign) (v : ℝ) : |withSign sign v| = |v| := by
  cases sign
  · exact abs_neg v
  · rfl

/-- Canonical floats stand for representable numbers. -/
theorem isRepresentable_value {u : UnpackedFloat} (hu : IsCanonical u) :
    IsRepresentable (value u) := by
  rcases u with _ | _ | _ | ⟨sign, m, e, hm⟩
  · exact hu.elim
  · exact hu.elim
  · exact ⟨0, 0, by norm_num, by norm_num, by simp [value]⟩
  · have hpositive : IsRepresentable (m * 2 ^ e) :=
      ⟨m, e, by exact_mod_cast hu.1, hu.2.1, by push_cast; rfl⟩
    cases sign
    · exact hpositive.neg
    · exact hpositive

/-- The exponent of a canonical float is in range exactly if the number is. -/
theorem abs_value_lt_iff {sign : Sign} {m : ℕ} {e : ℤ} {hm : 0 < m}
    (h : IsCanonical (.finite sign m e hm)) :
    |value (.finite sign m e hm)| < 2 ^ (1024 : ℤ) ↔ e ≤ 971 := by
  have hpow : (0 : ℝ) < 2 ^ e := zpow_pos two_pos e
  have hsplit : (2 : ℝ) ^ (1024 : ℤ) = 2 ^ (1024 - e) * 2 ^ e := by
    rw [← zpow_add₀ two_ne_zero, sub_add_cancel]
  rw [value, abs_withSign, abs_of_nonneg (by positivity), hsplit, mul_lt_mul_iff_of_pos_right hpow]
  constructor
  · intro hlt
    by_contra he
    have hbits : (2 : ℝ) ^ (52 : ℤ) ≤ m := by exact_mod_cast h.2.2.resolve_right (by omega)
    have := exponent_lt_of_between hbits hlt
    omega
  · intro he
    have hcast : (m : ℝ) < 2 ^ (53 : ℤ) := by exact_mod_cast h.1
    exact hcast.trans_le (zpow_le_zpow_right₀ one_le_two (by omega))

/-- Finite floats stand for numbers below the first power of two that is out of range. -/
theorem HasValue.abs_lt {x : Float} {q : ℝ} (h : HasValue x q) : |q| < 2 ^ (1024 : ℤ) := by
  obtain ⟨hx, rfl⟩ := h
  obtain ⟨sign, hunpack⟩ | ⟨sign, m, e, hm, hunpack⟩ := hx.zero_or_finite
  · rw [hunpack, value_zero, abs_zero]
    exact zpow_pos two_pos _
  · obtain ⟨hcanonical, he⟩ := isCanonical_of_unpack hunpack
    rw [hunpack]
    exact (abs_value_lt_iff hcanonical).mpr he

/-- A canonical float is packed without loss if its number is in range. -/
theorem unpack_of_isCanonical {u : UnpackedFloat} (hu : IsCanonical u)
    (hrange : |value u| < 2 ^ (1024 : ℤ)) {z : Float} (hz : z.toModel = Float.Model.pack u) :
    z.toModel.unpack = u := by
  rw [hz]
  obtain ⟨sign, rfl⟩ | ⟨sign, m, e, hm, rfl⟩ := hu.zero_or_finite
  · cases sign <;> rfl
  · exact unpack_pack_of_le hu ((abs_value_lt_iff hu).mp hrange)

/-- Finite floats stand for representable numbers. -/
theorem HasValue.isRepresentable {x : Float} {q : ℝ} (h : HasValue x q) : IsRepresentable q :=
  h.2 ▸ isRepresentable_value h.1

/-! ## Constants -/

/-- The key of a positive finite float holds its exponent and significand. -/
theorem eq_finite_of_key? {u : UnpackedFloat} {e m : ℤ}
    (h : key? u = some (toLex (1, toLex (e, m)))) :
    ∃ n hn, u = .finite .positive n e hn ∧ (n : ℤ) = m := by
  rcases u with (_ | _) | _ | _ | ⟨_ | _, n, k, hn⟩ <;> simp [key?] at h
  obtain ⟨rfl, rfl⟩ := h
  exact ⟨n, hn, rfl, rfl⟩

/-- The value of a positive finite float from its key. -/
theorem hasValue_of_floatKey? {x : Float} {e m : ℤ}
    (h : floatKey? x = some (toLex (1, toLex (e, m)))) : HasValue x (m * 2 ^ e) := by
  obtain ⟨n, hn, hunpack, rfl⟩ := eq_finite_of_key? h
  refine ⟨?_, ?_⟩
  · rw [hunpack]
    exact (isCanonical_of_unpack hunpack).1
  · rw [hunpack]
    rfl

/-- A positive finite float stands for the number that its key makes up. -/
theorem hasValue_of_key {x : Float} {q : ℝ} (e m : ℤ)
    (hkey : floatKey? x = some (toLex (1, toLex (e, m)))) (hvalue : (m : ℝ) * 2 ^ e = q) :
    HasValue x q :=
  hvalue ▸ hasValue_of_floatKey? hkey

/-- A float with the key of zero is a zero. -/
theorem hasValue_of_floatKey?_zero {x : Float} {e m : ℤ}
    (h : floatKey? x = some (toLex (0, toLex (e, m)))) : HasValue x 0 ∧ m = 0 := by
  rw [floatKey?] at h
  unfold HasValue
  rcases hunpack : x.toModel.unpack with (_ | _) | _ | sign | ⟨_ | _, n, k, hn⟩ <;>
    simp [hunpack, key?] at h
  exact ⟨⟨trivial, rfl⟩, h.2.symm⟩

/-- The value of zero. -/
theorem hasValue_zero : HasValue 0.0 0 :=
  (hasValue_of_floatKey?_zero (e := 0) (m := 0) (by decide +kernel)).1

/-- The value of one. -/
theorem hasValue_one : HasValue 1.0 1 :=
  hasValue_of_key (-52) (2 ^ 52) (by decide +kernel) (by norm_num)

/-- A float beyond another one is at least the next one. -/
theorem le_of_lt_of_next {x next y : Float} {e m : ℤ}
    (hx : floatKey? x = some (toLex (1, toLex (e, m))))
    (hnext : floatKey? next = some (toLex (1, toLex (e, m + 1)))) (h : x < y) : next ≤ y := by
  obtain ⟨a, b, ha, hb, hab⟩ := (Binary64.lt_iff x y).mp h
  obtain rfl := Option.some.inj (hx.symm.trans ha)
  refine (Binary64.le_iff next y).mpr ⟨_, b, hnext, hb, ?_⟩
  simp only [Prod.Lex.le_iff, Prod.Lex.lt_iff, ofLex_toLex] at hab ⊢
  omega

/-! ## Results -/

/-- The float compares with all finite floats as the exact number does, up to equality. -/
def Rounds (v : ℝ) (z : Float) : Prop :=
  ∀ g q, HasValue g q → (v ≤ q → z ≤ g) ∧ (q ≤ v → g ≤ z)

/-- Infinity comes after every finite float. -/
theorem le_infinity {g z : Float} {q : ℝ} (hg : HasValue g q)
    (hz : z.toModel.unpack = .infinity .positive) : g ≤ z := by
  obtain ⟨a, ha⟩ := exists_key_of_isCanonical hg.1
  exact (Binary64.le_iff g z).mpr
    ⟨a, _, ha, by rw [floatKey?, hz]; rfl, (key_between_infinities hg.1 ha).2.le⟩

/-- Negative infinity comes before every finite float. -/
theorem negInfinity_le {g z : Float} {q : ℝ} (hg : HasValue g q)
    (hz : z.toModel.unpack = .infinity .negative) : z ≤ g := by
  obtain ⟨a, ha⟩ := exists_key_of_isCanonical hg.1
  exact (Binary64.le_iff z g).mpr
    ⟨_, a, by rw [floatKey?, hz]; rfl, ha, (key_between_infinities hg.1 ha).1.le⟩

/-- A finite float compares as an exact number does that no representable number separates from
its own. -/
theorem HasValue.rounds {z : Float} {v r : ℝ} (hz : HasValue z r) (h : NoneBetween v r) :
    Rounds v z := by
  intro g q hg
  have hcompare := h q hg.isRepresentable
  exact ⟨fun hvq => (hz.le_iff hg).mpr (hcompare.1 hvq),
    fun hqv => (hg.le_iff hz).mpr (hcompare.2 hqv)⟩

/-- A rounded float is packed into one that compares as the exact number does. -/
theorem IsRounded.rounds {v : ℝ} {u : UnpackedFloat} (h : IsRounded v u) {z : Float}
    (hz : z.toModel = Float.Model.pack u) : Rounds v z := by
  obtain ⟨hcanonical, hnone⟩ := h
  rcases lt_or_ge |value u| (2 ^ (1024 : ℤ)) with hrange | hlarge
  · have hunpack := unpack_of_isCanonical hcanonical hrange hz
    exact HasValue.rounds ⟨by rw [hunpack]; exact hcanonical, by rw [hunpack]⟩ hnone
  · -- The rounded number is out of range, so finite floats are all on one side of it.
    obtain ⟨sign, rfl⟩ | ⟨sign, m, e, hm, rfl⟩ := hcanonical.zero_or_finite
    · rw [value_zero, abs_zero] at hlarge
      exact absurd hlarge (zpow_pos two_pos _).not_ge
    · have he : 971 < e := not_le.mp fun he => ((abs_value_lt_iff hcanonical).mpr he).not_ge hlarge
      have hunpack : z.toModel.unpack = .infinity sign := by rw [hz, unpack_pack_of_lt he]
      rw [value, abs_withSign, abs_of_nonneg (by positivity)] at hlarge
      intro g q hg
      have hcompare := hnone q hg.isRepresentable
      have hrange := abs_lt.mp hg.abs_lt
      cases sign
      · refine ⟨fun _ => negInfinity_le hg hunpack, fun hqv => ?_⟩
        have hle : q ≤ -(m * 2 ^ e) := hcompare.2 hqv
        linarith
      · refine ⟨fun hvq => ?_, fun _ => le_infinity hg hunpack⟩
        have hle : m * 2 ^ e ≤ q := hcompare.1 hvq
        linarith

end ColorWords.Binary64
