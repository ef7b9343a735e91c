import ColorWords.Proofs.Scalar.Order
import ColorWords.Scalar.Binary64
import Mathlib

/-!
# The order of 64-bit floats

Comparisons of floats are those of a linearly ordered key, which a float has exactly if it is a
number. The key of a finite float is its exponent and then its significand, negated both below
zero; infinities are at the ends, and both zeros have the same key. All laws of ordered scalars
follow from this.
-/

namespace ColorWords.Binary64

open Float.Model

/-- The place of a number in the order: its kind, from negative to positive infinity, and then
the exponent and the significand. -/
def key? : UnpackedFloat → Option (ℤ ×ₗ ℤ ×ₗ ℤ)
  | .notANumber => none
  | .infinity .negative => some (toLex (-2, toLex (0, 0)))
  | .finite .negative significand exponent _ =>
    some (toLex (-1, toLex (-exponent, -significand)))
  | .zero _ => some (toLex (0, toLex (0, 0)))
  | .finite .positive significand exponent _ => some (toLex (1, toLex (exponent, significand)))
  | .infinity .positive => some (toLex (2, toLex (0, 0)))

/-- Negation reverses comparisons of integers. -/
theorem compare_neg_neg (x y : ℤ) : compare (-x) (-y) = (compare x y).swap := by
  rw [Int.compare_swap, Int.compare_eq_ite_lt, Int.compare_eq_ite_lt]
  simp only [Int.neg_lt_neg_iff]

/-- Natural numbers compare as integers. -/
theorem compare_natCast (m n : ℕ) : compare (m : ℤ) n = compare m n := by
  rw [Int.compare_eq_ite_lt, Nat.compare_eq_ite_lt]
  simp only [Int.ofNat_lt]

/-- Floats compare as their keys. -/
theorem compare_eq_compare_key (x y : UnpackedFloat) :
    x.compare y = (key? x).bind fun a => (key? y).map fun b => compare a b := by
  rcases x with (_ | _) | _ | _ | ⟨_ | _, m, e, hm⟩ <;>
    rcases y with (_ | _) | _ | _ | ⟨_ | _, n, k, hn⟩ <;>
    -- Only floats of the same sign and kind need their exponents.
    try rfl
  · simp [UnpackedFloat.compare, key?, Prod.Lex.compare_def, compareLex, compareOn,
      Ordering.swap_then, compare_neg_neg, compare_natCast]
  · simp [UnpackedFloat.compare, key?, Prod.Lex.compare_def, compareLex, compareOn,
      compare_natCast]

/-- The key of a float. -/
def floatKey? (x : Float) : Option (ℤ ×ₗ ℤ ×ₗ ℤ) := key? x.toModel.unpack

/-- A float is at most another one exactly if both are numbers and their keys say so. -/
theorem le_iff (x y : Float) :
    x ≤ y ↔ ∃ a b, floatKey? x = some a ∧ floatKey? y = some b ∧ a ≤ b := by
  change decide (x.toModel.unpack.le y.toModel.unpack = true) = true ↔ _
  rw [decide_eq_true_eq, UnpackedFloat.le, compare_eq_compare_key]
  cases hx : key? x.toModel.unpack <;> cases hy : key? y.toModel.unpack <;>
    simp [floatKey?, hx, hy, ← Ordering.ne_gt_iff_isLE, compare_le_iff_le]

/-- A float is less than another one exactly if both are numbers and their keys say so. -/
theorem lt_iff (x y : Float) :
    x < y ↔ ∃ a b, floatKey? x = some a ∧ floatKey? y = some b ∧ a < b := by
  change decide (x.toModel.unpack.lt y.toModel.unpack = true) = true ↔ _
  rw [decide_eq_true_eq, UnpackedFloat.lt, compare_eq_compare_key]
  cases hx : key? x.toModel.unpack <;> cases hy : key? y.toModel.unpack <;>
    simp [floatKey?, hx, hy, compare_lt_iff_lt]

/-- A float that compares with itself has a key. -/
theorem exists_floatKey?_of_le_self {x : Float} (h : x ≤ x) : ∃ a, floatKey? x = some a := by
  obtain ⟨a, -, ha, -⟩ := (le_iff x x).mp h
  exact ⟨a, ha⟩

/-- The key of positive infinity. -/
theorem floatKey?_infinity : floatKey? (1.0 / 0.0) = some (toLex (2, toLex (0, 0))) := by
  decide +kernel

/-- No key is beyond that of positive infinity. -/
theorem key_le_infinity {x : UnpackedFloat} {a : ℤ ×ₗ ℤ ×ₗ ℤ} (h : key? x = some a) :
    a ≤ toLex (2, toLex (0, 0)) := by
  rcases x with (_ | _) | _ | _ | ⟨_ | _, m, e, hm⟩ <;> simp only [key?, reduceCtorEq,
    Option.some.injEq] at h <;> subst h <;> simp [Prod.Lex.toLex_le_toLex]

end ColorWords.Binary64

namespace ColorWords

open Binary64

/-- The numbers among 64-bit floats are ordered linearly. -/
instance OrderedScalar.instFloat : OrderedScalar Float where
  number_left h := by
    obtain ⟨a, -, ha, -⟩ := (le_iff _ _).mp h
    exact (le_iff _ _).mpr ⟨a, a, ha, ha, le_refl a⟩
  number_right h := by
    obtain ⟨-, b, -, hb, -⟩ := (le_iff _ _).mp h
    exact (le_iff _ _).mpr ⟨b, b, hb, hb, le_refl b⟩
  le_trans hxy hyz := by
    obtain ⟨a, b, ha, hb, hab⟩ := (le_iff _ _).mp hxy
    obtain ⟨b', c, hb', hc, hbc⟩ := (le_iff _ _).mp hyz
    obtain rfl : b = b' := Option.some.inj (hb.symm.trans hb')
    exact (le_iff _ _).mpr ⟨a, c, ha, hc, hab.trans hbc⟩
  le_total {x y} hx hy := by
    obtain ⟨a, ha⟩ := exists_floatKey?_of_le_self hx
    obtain ⟨b, hb⟩ := exists_floatKey?_of_le_self hy
    exact (LinearOrder.le_total a b).imp (fun hab => (le_iff x y).mpr ⟨a, b, ha, hb, hab⟩)
      fun hba => (le_iff y x).mpr ⟨b, a, hb, ha, hba⟩
  lt_iff {x y} := by
    constructor
    · intro h
      obtain ⟨a, b, ha, hb, hab⟩ := (Binary64.lt_iff x y).mp h
      refine ⟨(le_iff x y).mpr ⟨a, b, ha, hb, hab.le⟩, fun hyx => ?_⟩
      obtain ⟨b', a', hb', ha', hba⟩ := (le_iff y x).mp hyx
      obtain rfl : a = a' := Option.some.inj (ha.symm.trans ha')
      obtain rfl : b = b' := Option.some.inj (hb.symm.trans hb')
      exact absurd hba hab.not_ge
    · rintro ⟨h, hyx⟩
      obtain ⟨a, b, ha, hb, hab⟩ := (le_iff x y).mp h
      refine (Binary64.lt_iff x y).mpr ⟨a, b, ha, hb, lt_of_not_ge fun hba => hyx ?_⟩
      exact (le_iff y x).mpr ⟨b, a, hb, ha, hba⟩
  belowInfinity_of_lt {x y} h := by
    obtain ⟨a, b, ha, hb, hab⟩ := (Binary64.lt_iff x y).mp h
    refine decide_eq_true ((Binary64.lt_iff x _).mpr ⟨a, _, ha, floatKey?_infinity, ?_⟩)
    exact hab.trans_le (key_le_infinity hb)
  number_of_belowInfinity {x} h := by
    obtain ⟨a, -, ha, -⟩ := (Binary64.lt_iff x _).mp (of_decide_eq_true h)
    exact (le_iff x x).mpr ⟨a, a, ha, ha, le_refl a⟩
  zero_le_one := by decide
  neg_half_le_zero := by decide
  zero_le_half := by decide

/-- The total order of 64-bit floats is that of their ranks. -/
instance Scalar.instTransCmpFloat : Std.TransCmp (Scalar.totalCompare : Float → Float → Ordering) :=
  transCmp_comap compare rank

end ColorWords
