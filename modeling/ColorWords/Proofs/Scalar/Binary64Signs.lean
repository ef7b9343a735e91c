import ColorWords.Proofs.Scalar.Binary64Arithmetic

/-!
# Signs of 64-bit floats

Sums of floats on one side of zero stay there, and so do their halves, also where they are too
large for finite floats. Negation reverses all comparisons. Sums are the negative zero only if both
summands are, and the number of any other finite float determines its bits.
-/

namespace ColorWords.Binary64

open Float.Model Float.Model.UnpackedFloat

/-! ## Sides of zero -/

/-- The float is a number and has the sign unless it is a zero. -/
def HasSign (sign : Sign) : UnpackedFloat → Prop
  | .zero _ => True
  | .finite s _ _ _ => s = sign
  | .infinity s => s = sign
  | .notANumber => False

/-- Rounding keeps the sign. -/
theorem hasSign_roundWithAccuracy (sign : Sign) (m : ℕ) (e : ℤ) (acc : Accuracy) :
    HasSign sign (roundWithAccuracy Format.binary64 sign m e acc) := by
  unfold roundWithAccuracy
  dsimp only
  split
  · trivial
  · rfl

/-- Rounding a signed number keeps its sign. -/
theorem hasSign_normalize (sign : Sign) (m : ℕ) (e : ℤ) (zeroSign : Sign) :
    HasSign sign (UnpackedFloat.normalize Format.binary64 (sign.apply m) e zeroSign) := by
  unfold UnpackedFloat.normalize
  split
  · next hneg =>
    rw [Int.compare_eq_lt] at hneg
    cases sign
    · exact hasSign_roundWithAccuracy _ _ _ _
    · change (m : ℤ) < 0 at hneg
      omega
  · trivial
  · next hpos =>
    rw [Int.compare_eq_gt] at hpos
    cases sign
    · change 0 < -(m : ℤ) at hpos
      omega
    · exact hasSign_roundWithAccuracy _ _ _ _

/-- The sum of floats with the same sign has this sign. -/
theorem HasSign.add {sign : Sign} {u v : UnpackedFloat} (hu : HasSign sign u)
    (hv : HasSign sign v) : HasSign sign (UnpackedFloat.add Format.binary64 u v) := by
  rcases u with s | _ | s | ⟨s, m, e, hm⟩ <;> rcases v with s' | _ | s' | ⟨s', n, k, hn⟩ <;>
    first | exact hu.elim | exact hv.elim | skip
  · obtain rfl := hu
    obtain rfl := hv
    cases s' <;> rfl
  · exact hu
  · exact hu
  · exact hv
  · cases s <;> cases s' <;> trivial
  · exact hv
  · exact hv
  · exact hu
  · obtain rfl := hu
    obtain rfl := hv
    have happly (x y : ℕ) : s'.apply x + s'.apply y = s'.apply (x + y : ℕ) := by
      cases s'
      · change -(x : ℤ) + -(y : ℤ) = -((x + y : ℕ) : ℤ)
        push_cast
        ring
      · rfl
    simp only [UnpackedFloat.add, happly]
    exact hasSign_normalize _ _ _ _

/-- Dividing by a positive finite float keeps the sign. -/
theorem HasSign.div {sign : Sign} {u : UnpackedFloat} (hu : HasSign sign u) {n : ℕ} {k : ℤ}
    (hn : 0 < n) :
    HasSign sign (UnpackedFloat.div Format.binary64 u (.finite .positive n k hn)) := by
  rcases u with s | _ | s | ⟨s, m, e, hm⟩
  · obtain rfl := hu
    cases s <;> rfl
  · exact hu.elim
  · trivial
  · obtain rfl := hu
    simp only [UnpackedFloat.div]
    cases s
    · exact hasSign_roundWithAccuracy .negative _ _ _
    · exact hasSign_roundWithAccuracy .positive _ _ _

/-- Fields are unpacked with their sign, unless they are those of no number. -/
theorem hasSign_unpack_packComponents (sign : Sign) {exponent : BitVec 11} {fraction : BitVec 52}
    (h : exponent ≠ -1#11 ∨ fraction = 0#52) :
    HasSign sign (UnpackedFloat.unpack Format.binary64
      (packComponents Format.binary64 sign exponent fraction)) := by
  simp only [UnpackedFloat.unpack, unpackMantissa_packComponents, unpackExponent_packComponents,
    ofBitVec_unpackSign]
  split
  · next hones =>
    rw [if_pos (h.resolve_left fun hne => hne hones)]
    rfl
  · split
    · split
      · trivial
      · rfl
    · rfl

/-- Packing keeps the sign. -/
theorem HasSign.unpack_pack {sign : Sign} {u : UnpackedFloat} (hu : HasSign sign u) :
    HasSign sign (Float.Model.pack u).unpack := by
  change HasSign sign (UnpackedFloat.unpack Format.binary64 (UnpackedFloat.pack Format.binary64 u))
  rcases u with s | _ | s | ⟨s, m, e, hm⟩
  · obtain rfl := hu
    exact hasSign_unpack_packComponents _ (Or.inr rfl)
  · exact hu.elim
  · have hzero :
        UnpackedFloat.unpack Format.binary64 (UnpackedFloat.pack Format.binary64 (.zero s)) =
          .zero s := by
      cases s <;> rfl
    rw [hzero]
    trivial
  · obtain rfl := hu
    simp only [UnpackedFloat.pack]
    split
    · exact hasSign_unpack_packComponents _ (Or.inr rfl)
    · next hfits =>
      split
      · refine hasSign_unpack_packComponents _ (Or.inl fun hones => hfits ?_)
        have hvalue := congrArg BitVec.toNat hones
        rw [BitVec.toNat_ofNat] at hvalue
        change _ % 2048 = 2047 at hvalue
        change 2048 ≤ _
        omega
      · exact hasSign_unpack_packComponents _ (Or.inl (by decide))

/-- Floats from zero on are those with positive sign. -/
theorem zero_le_iff (x : Float) : 0.0 ≤ x ↔ HasSign .positive x.toModel.unpack := by
  have hzero : floatKey? 0.0 = some (toLex (0, toLex (0, 0))) := by decide +kernel
  rw [le_iff, hzero, floatKey?]
  rcases x.toModel.unpack with (_ | _) | _ | _ | ⟨_ | _, m, e, hm⟩ <;>
    simp [key?, HasSign, Prod.Lex.toLex_le_toLex]

/-- Floats up to zero are those with negative sign. -/
theorem le_zero_iff (x : Float) : x ≤ 0.0 ↔ HasSign .negative x.toModel.unpack := by
  have hzero : floatKey? 0.0 = some (toLex (0, toLex (0, 0))) := by decide +kernel
  rw [le_iff, hzero, floatKey?]
  rcases x.toModel.unpack with (_ | _) | _ | _ | ⟨_ | _, m, e, hm⟩ <;>
    simp [key?, HasSign, Prod.Lex.toLex_le_toLex]

/-- The middle of floats with the same sign has this sign. -/
theorem hasSign_middle {sign : Sign} {x y : Float} (hx : HasSign sign x.toModel.unpack)
    (hy : HasSign sign y.toModel.unpack) : HasSign sign ((x + y) / 2.0).toModel.unpack := by
  have htwo : floatKey? 2.0 = some (toLex (1, toLex (-51, 2 ^ 52))) := by decide +kernel
  obtain ⟨n, hn, hunpack, -⟩ := eq_finite_of_key? htwo
  have hsum : HasSign sign (x + y).toModel.unpack := (hx.add hy).unpack_pack
  have hhalf := (hsum.div (k := -51) hn).unpack_pack
  rw [← hunpack] at hhalf
  exact hhalf

/-! ## Packing what was unpacked -/

/-- Change the sign of an unpacked float. -/
def mapSign (change : Sign → Sign) : UnpackedFloat → UnpackedFloat
  | .infinity sign => .infinity (change sign)
  | .notANumber => .notANumber
  | .zero sign => .zero (change sign)
  | .finite sign m e hm => .finite (change sign) m e hm

/-- What a float is unpacked to is not lost by packing, whatever becomes of the sign. -/
theorem unpack_pack_mapSign (change : Sign → Sign) (x : Float) :
    (Float.Model.pack (mapSign change x.toModel.unpack)).unpack =
      mapSign change x.toModel.unpack := by
  rcases h : x.toModel.unpack with s | _ | s | ⟨s, m, e, hm⟩ <;> rw [mapSign]
  · cases change s <;> rfl
  · rfl
  · cases change s <;> rfl
  · obtain ⟨hcanonical, he⟩ := isCanonical_of_unpack h
    exact unpack_pack_of_le hcanonical he

/-- What a float is unpacked to determines its bits. -/
theorem eq_of_unpack_eq {f g : Float.Model} (h : f.unpack = g.unpack) : f = g := by
  have hbits := UInt64.toBitVec_inj.mp ((unpack_inj_of_valid f.valid g.valid).mp h)
  cases f
  cases g
  cases hbits
  rfl

/-- A float is packed from what it is unpacked to. -/
theorem pack_unpack (x : Float) : x.toModel = Float.Model.pack x.toModel.unpack := by
  have hsame : mapSign id x.toModel.unpack = x.toModel.unpack := by
    cases x.toModel.unpack <;> rfl
  have hunpack := unpack_pack_mapSign id x
  rw [hsame] at hunpack
  exact eq_of_unpack_eq hunpack.symm

/-! ## Negation -/

/-- Negating a float negates what it is unpacked to. -/
theorem unpack_neg (x : Float) : (-x).toModel.unpack = x.toModel.unpack.neg := by
  have hneg : x.toModel.unpack.neg = mapSign Neg.neg x.toModel.unpack := by
    cases x.toModel.unpack <;> rfl
  change (Float.Model.pack x.toModel.unpack.neg).unpack = _
  rw [hneg, unpack_pack_mapSign]

/-- Dropping the sign of a float drops that of what it is unpacked to. -/
theorem unpack_abs (x : Float) : x.abs.toModel.unpack = x.toModel.unpack.abs := by
  have habs : x.toModel.unpack.abs = mapSign (fun _ => .positive) x.toModel.unpack := by
    cases x.toModel.unpack <;> rfl
  change (Float.Model.pack x.toModel.unpack.abs).unpack = _
  rw [habs, unpack_pack_mapSign]

/-- The value of the negated float. -/
theorem HasValue.neg {x : Float} {p : ℝ} (h : HasValue x p) : HasValue (-x) (-p) := by
  obtain ⟨hx, rfl⟩ := h
  have hneg := hx.neg
  rwa [← unpack_neg] at hneg

/-- The magnitude of a finite float stands for the absolute value. -/
theorem HasValue.magnitude {x : Float} {p : ℝ} (h : HasValue x p) :
    HasValue (Scalar.magnitude x) |p| := by
  unfold Scalar.magnitude
  split
  · next hneg =>
    rw [abs_of_neg ((h.lt_iff hasValue_zero).mp hneg)]
    exact h.neg
  · next hnonneg =>
    rw [abs_of_nonneg (not_lt.mp fun hneg => hnonneg ((h.lt_iff hasValue_zero).mpr hneg))]
    exact h

/-- The key of the negated float. -/
def negKey (a : ℤ ×ₗ ℤ ×ₗ ℤ) : ℤ ×ₗ ℤ ×ₗ ℤ :=
  toLex (-(ofLex a).1, toLex (-(ofLex (ofLex a).2).1, -(ofLex (ofLex a).2).2))

/-- Negation negates the key. -/
theorem floatKey?_neg (x : Float) : floatKey? (-x) = (floatKey? x).map negKey := by
  rw [floatKey?, unpack_neg, floatKey?]
  generalize x.toModel.unpack = u
  rcases u with (_ | _) | _ | _ | ⟨_ | _, m, e, hm⟩
  · rfl
  · rfl
  · rfl
  · rfl
  · simp [UnpackedFloat.neg, key?, negKey]
  · rfl

/-- Negating keys reverses their order. -/
theorem negKey_le_iff (a b : ℤ ×ₗ ℤ ×ₗ ℤ) : negKey a ≤ b ↔ negKey b ≤ a := by
  simp only [negKey, Prod.Lex.le_iff, ofLex_toLex]
  omega

/-- Negation reverses comparisons. -/
theorem neg_le_iff (x y : Float) : -x ≤ y ↔ -y ≤ x := by
  rw [le_iff, le_iff, floatKey?_neg, floatKey?_neg]
  cases floatKey? x <;> cases floatKey? y <;> simp [negKey_le_iff]

/-! ## Negative zero -/

/-- The float is not the negative zero. -/
def IsPlain (x : Float) : Prop := x.toModel.unpack ≠ .zero .negative

/-- The zero that is written without a sign is not the negative one. -/
theorem isPlain_zero : IsPlain 0.0 := by
  have hunpack : (0.0 : Float).toModel.unpack = .zero .positive := by rfl
  rw [IsPlain, hunpack]
  exact nofun

/-- A float that stands for another number than zero is not the negative zero. -/
theorem HasValue.isPlain {x : Float} {p : ℝ} (h : HasValue x p) (hne : p ≠ 0) : IsPlain x := by
  intro hnegative
  have hvalue := h.2
  rw [hnegative, value_zero] at hvalue
  exact hne hvalue.symm

/-- The key determines a finite float other than the negative zero. -/
theorem unpack_eq_of_key_eq {u v : UnpackedFloat} (hu : IsCanonical u) (hv : IsCanonical v)
    (hplain : u ≠ .zero .negative) (hplain' : v ≠ .zero .negative) (h : key? u = key? v) :
    u = v := by
  obtain ⟨_ | _, rfl⟩ | ⟨_ | _, m, e, hm, rfl⟩ := hu.zero_or_finite <;>
    obtain ⟨_ | _, rfl⟩ | ⟨_ | _, n, k, hn, rfl⟩ := hv.zero_or_finite <;>
    simp_all [key?]

/-- The number determines a finite float other than the negative zero. -/
theorem HasValue.eq_of_isPlain {x y : Float} {p : ℝ} (hx : HasValue x p) (hy : HasValue y p)
    (hplain : IsPlain x) (hplain' : IsPlain y) : x = y := by
  obtain ⟨a, ha⟩ := exists_key_of_isCanonical hx.1
  obtain ⟨b, hb⟩ := exists_key_of_isCanonical hy.1
  have hkey : a = b := by
    rcases lt_trichotomy a b with hab | hab | hba
    · exact absurd (hx.2.trans hy.2.symm) (value_lt_of_key_lt hx.1 hy.1 ha hb hab).ne
    · exact hab
    · exact absurd (hy.2.trans hx.2.symm) (value_lt_of_key_lt hy.1 hx.1 hb ha hba).ne
  have hunpack := unpack_eq_of_key_eq hx.1 hy.1 hplain hplain' (by rw [ha, hb, hkey])
  exact congrArg Float.ofModel (eq_of_unpack_eq hunpack)

/-- Adding to a float other than the negative zero never yields the negative zero. -/
theorem IsPlain.add {x y : Float} {p q : ℝ} (hplain : IsPlain x) (hx : HasValue x p)
    (hy : HasValue y q) (hrange : |p + q| ≤ 2 ^ (1023 : ℤ)) : IsPlain (x + y) := by
  obtain ⟨hx, rfl⟩ := hx
  obtain ⟨hy, rfl⟩ := hy
  have hsum := isNearest_add hx hy
  have hunpack : (x + y).toModel.unpack =
    UnpackedFloat.add Format.binary64 x.toModel.unpack y.toModel.unpack := hsum.unpack_eq hrange rfl
  rw [IsPlain, hunpack]
  intro hnegative
  have hrounds := hsum.roundsTo
  rw [hnegative, value_zero] at hrounds
  -- The exact sum is on the finest grid, so it is zero if the rounded one is.
  have hzero := hrounds.eq_zero ((grid _).add_mem (isRepresentable_value hx).mem_grid
    (isRepresentable_value hy).mem_grid)
  rw [IsPlain] at hplain
  generalize x.toModel.unpack = u at hx hplain hnegative hzero
  generalize y.toModel.unpack = v at hy hnegative hzero
  obtain ⟨s, rfl⟩ | ⟨s, m, e, hm, rfl⟩ := hx.zero_or_finite <;>
    obtain ⟨s', rfl⟩ | ⟨s', n, k, hn, rfl⟩ := hy.zero_or_finite
  · cases s <;> cases s' <;> simp_all [UnpackedFloat.add]
  · cases hnegative
  · cases hnegative
  · obtain ⟨total, exponent, htotal, hadd⟩ := add_finite s s' m n e k hm hn
    rw [htotal, mul_eq_zero, or_iff_left (zpow_pos two_pos exponent).ne', Int.cast_eq_zero] at hzero
    rw [hadd, hzero] at hnegative
    cases hnegative

/-- The square of a float is never the negative zero. -/
theorem HasValue.isPlain_mul_self {x : Float} {p : ℝ} (hx : HasValue x p)
    (hrange : |p * p| ≤ 2 ^ (1023 : ℤ)) : IsPlain (x * x) := by
  obtain ⟨hx, rfl⟩ := hx
  have hunpack : (x * x).toModel.unpack =
      UnpackedFloat.mul Format.binary64 x.toModel.unpack x.toModel.unpack :=
    (isNearest_mul hx hx).unpack_eq hrange rfl
  rw [IsPlain, hunpack]
  obtain ⟨s, hzero⟩ | ⟨s, m, e, hm, hfinite⟩ := hx.zero_or_finite
  · rw [hzero]
    cases s <;> exact nofun
  · -- Signs that are equal cancel, also if the square is rounded to zero.
    rw [hfinite]
    simp only [UnpackedFloat.mul]
    unfold roundWithAccuracy
    dsimp only
    split <;> cases s <;> exact nofun

end ColorWords.Binary64
