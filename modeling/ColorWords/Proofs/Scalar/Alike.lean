import ColorWords.Proofs.Scalar.Exact
import ColorWords.Space

/-!
# Scalars up to the sign of zero

A mean of one float is this float, except that a negative zero loses its sign. Two scalars are alike
if they are the same or both are zeros. Comparisons cannot tell them apart, and arithmetic keeps
them alike, as long as no division by zero shows the sign. Of the elementary functions only the
bearing depends on the sign of a zero, and a hue does not.
-/

namespace ColorWords

open Scalar

/-- The scalar is a zero, of either sign. -/
def IsZero {α : Type} [Scalar α] (x : α) : Prop := x ≤ 0.0 ∧ 0.0 ≤ x

/-- The scalars are the same, or both are zeros. -/
def Alike {α : Type} [Scalar α] (x y : α) : Prop := x = y ∨ IsZero x ∧ IsZero y

/-- Arithmetic in which a zero of either sign is neutral for sums and absorbs products.

What a mean of one number computes is exact, and half a turn less than a full one is half a turn. -/
class SignedZeros (α : Type) [Scalar α] : Prop extends OrderedScalar α where
  isZero_neg {x : α} : IsZero x → IsZero (-x)
  alike_zero_add {x : α} (hx : IsZero x) (y : α) : Alike (x + y) y
  alike_add_zero (x : α) {y : α} (hy : IsZero y) : Alike (x + y) x
  alike_zero_sub {x : α} (hx : IsZero x) (y : α) : Alike (x - y) (-y)
  alike_sub_zero (x : α) {y : α} (hy : IsZero y) : Alike (x - y) x
  alike_zero_mul {x x' : α} (hx : IsZero x) (hx' : IsZero x') (y : α) : Alike (x * y) (x' * y)
  alike_mul_zero (x : α) {y y' : α} (hy : IsZero y) (hy' : IsZero y') : Alike (x * y) (x * y')
  alike_zero_div {x x' : α} (hx : IsZero x) (hx' : IsZero x') (y : α) : Alike (x / y) (x' / y)
  multiplyAdd_of_factor {x y : α} (h : IsZero x ∨ IsZero y) (z : α) :
    Alike (multiplyAdd x y z) (x * y + z)
  multiplyAdd_of_term (x y : α) {z : α} (hz : IsZero z) : Alike (multiplyAdd x y z) (x * y)
  isZero_sub_self {x : α} (h : Within (-1.0) 1.0 x) : IsZero (x - x)
  isZero_neg_add_self {x : α} (h : Within (-1.0) 1.0 x) : IsZero (-x + x)
  alike_div_one {x : α} (h : Within (-1.0) 1.0 x) : Alike (x / ofNat 1) x
  half_le_one : (0.5 : α) ≤ 1.0
  neg_one_le_neg_half : (-1.0 : α) ≤ -0.5
  zero_le_linearLimit : (0.0 : α) ≤ 0.04045
  zero_le_encodeLimit : (0.0 : α) ≤ 0.00313098
  zero_lt_powerless : (0.0 : α) < Lab.powerless
  half_turn : (-180.0 + 360.0 : α) = 180.0
  neg_half_turn_lt_zero : (-180.0 : α) < 0.0
  zero_le_half_turn : (0.0 : α) ≤ 180.0

/-- Elementary functions for which the sign of a zero only matters to the sign of a zero. The
bearing of a point on the horizontal axis is a zero to the right of the origin and half a turn, in
one direction or the other, to the left of it. -/
structure Elementary.IgnoresZeroSigns (α : Type) [Scalar α] [Elementary α] : Prop where
  squareRoot {x y : α} : Alike x y → Alike (squareRoot x) (squareRoot y)
  cubeRoot {x y : α} : Alike x y → Alike (cubeRoot x) (cubeRoot y)
  cosine {x y : α} : Alike x y → Alike (cosine x) (cosine y)
  sine {x y : α} : Alike x y → Alike (sine x) (sine y)
  euclidean {x x' y y' : α} : Alike x x' → Alike y y' → Alike (euclidean x y) (euclidean x' y')
  bearing_off_axis {b a a' : α} (hb : ¬ IsZero b) :
    Alike a a' → Alike (bearing b a) (bearing b a')
  bearing_right {b a : α} (hb : IsZero b) (ha : 0.0 < a) : IsZero (bearing b a)
  bearing_left {b a : α} (hb : IsZero b) (ha : a < 0.0) :
    bearing b a = 180.0 ∨ bearing b a = -180.0

/-! ## Laws -/

/-- Alternatives under equivalent conditions are related if they are one by one. -/
theorem rel_ite {β : Type} {relation : β → β → Prop} {p q : Prop} [Decidable p] [Decidable q]
    {x x' y y' : β} (hpq : p ↔ q) (hx : relation x x') (hy : relation y y') :
    relation (if p then x else y) (if q then x' else y') := by
  by_cases hp : p
  · rwa [if_pos hp, if_pos (hpq.mp hp)]
  · rwa [if_neg hp, if_neg fun hq => hp (hpq.mpr hq)]

namespace Alike

section Order

variable {α : Type} [Scalar α] {x x' y y' z : α}

/-- Every scalar is alike itself. -/
theorem refl (x : α) : Alike x x := Or.inl rfl

/-- The relation goes both ways. -/
theorem symm (h : Alike x y) : Alike y x := h.imp Eq.symm And.symm

/-- What is alike a zero is a zero. -/
theorem isZero (h : Alike x y) (hx : IsZero x) : IsZero y := by
  rcases h with rfl | ⟨-, hy⟩
  · exact hx
  · exact hy

/-- Scalars alike a third one are alike. -/
theorem trans (hxy : Alike x y) (hyz : Alike y z) : Alike x z := by
  rcases hxy with rfl | ⟨hx, hy⟩
  · exact hyz
  · exact Or.inr ⟨hx, hyz.isZero hy⟩

variable [OrderedScalar α]

/-- Scalars that are alike are at most the same scalars. -/
theorem le_iff (hx : Alike x x') (hy : Alike y y') : x ≤ y ↔ x' ≤ y' := by
  have hmono {x x' y y' : α} (hx : Alike x x') (hy : Alike y y') (hle : x ≤ y) : x' ≤ y' := by
    have hleft : x' ≤ y := by
      rcases hx with rfl | ⟨hx, hx'⟩
      · exact hle
      · exact OrderedScalar.le_trans hx'.1 (OrderedScalar.le_trans hx.2 hle)
    rcases hy with rfl | ⟨hy, hy'⟩
    · exact hleft
    · exact OrderedScalar.le_trans hleft (OrderedScalar.le_trans hy.1 hy'.2)
  exact ⟨hmono hx hy, hmono hx.symm hy.symm⟩

/-- Scalars that are alike are less than the same scalars. -/
theorem lt_iff (hx : Alike x x') (hy : Alike y y') : x < y ↔ x' < y' := by
  rw [OrderedScalar.lt_iff, OrderedScalar.lt_iff, hx.le_iff hy, hy.le_iff hx]

/-- Numbers that are alike compare as equal. -/
theorem same_eq_true (h : Alike x y) (hx : x ≤ x) : same x y = true := by
  have hle : x ≤ y := ((Alike.refl x).le_iff h).mp hx
  have hge : y ≤ x := (h.le_iff (Alike.refl x)).mp hx
  simp [same, hle, hge]

/-- Limiting keeps scalars alike. -/
theorem clamp (low high : α) (h : Alike x y) :
    Alike (Scalar.clamp low high x) (Scalar.clamp low high y) :=
  rel_ite (h.lt_iff (refl low)) (refl low) (rel_ite ((refl high).lt_iff h) (refl high) h)

/-- Replacing what is not a number keeps scalars alike. -/
theorem numberOrZero (h : Alike x y) : Alike (Scalar.numberOrZero x) (Scalar.numberOrZero y) :=
  rel_ite (h.le_iff h) h (refl _)

end Order

section Arithmetic

variable {α : Type} [Scalar α] [SignedZeros α] {x x' y y' : α}

open SignedZeros

/-- Negating keeps scalars alike. -/
theorem neg (h : Alike x y) : Alike (-x) (-y) := by
  rcases h with rfl | ⟨hx, hy⟩
  · exact refl _
  · exact Or.inr ⟨isZero_neg hx, isZero_neg hy⟩

/-- Adding keeps scalars alike. -/
theorem add (hx : Alike x x') (hy : Alike y y') : Alike (x + y) (x' + y') := by
  have hleft : Alike (x + y) (x' + y) := by
    rcases hx with rfl | ⟨hx, hx'⟩
    · exact refl _
    · exact (alike_zero_add hx y).trans (alike_zero_add hx' y).symm
  refine hleft.trans ?_
  rcases hy with rfl | ⟨hy, hy'⟩
  · exact refl _
  · exact (alike_add_zero x' hy).trans (alike_add_zero x' hy').symm

/-- Subtracting keeps scalars alike. -/
theorem sub (hx : Alike x x') (hy : Alike y y') : Alike (x - y) (x' - y') := by
  have hleft : Alike (x - y) (x' - y) := by
    rcases hx with rfl | ⟨hx, hx'⟩
    · exact refl _
    · exact (alike_zero_sub hx y).trans (alike_zero_sub hx' y).symm
  refine hleft.trans ?_
  rcases hy with rfl | ⟨hy, hy'⟩
  · exact refl _
  · exact (alike_sub_zero x' hy).trans (alike_sub_zero x' hy').symm

/-- Multiplying keeps scalars alike. -/
theorem mul (hx : Alike x x') (hy : Alike y y') : Alike (x * y) (x' * y') := by
  have hleft : Alike (x * y) (x' * y) := by
    rcases hx with rfl | ⟨hx, hx'⟩
    · exact refl _
    · exact alike_zero_mul hx hx' y
  refine hleft.trans ?_
  rcases hy with rfl | ⟨hy, hy'⟩
  · exact refl _
  · exact alike_mul_zero x' hy hy'

/-- Multiplying and adding keeps scalars alike. -/
theorem multiplyAdd {z z' : α} (hx : Alike x x') (hy : Alike y y') (hz : Alike z z') :
    Alike (Scalar.multiplyAdd x y z) (Scalar.multiplyAdd x' y' z') := by
  have hfirst : Alike (Scalar.multiplyAdd x y z) (Scalar.multiplyAdd x' y z) := by
    rcases hx with rfl | ⟨hx, hx'⟩
    · exact refl _
    · exact (multiplyAdd_of_factor (.inl hx) z).trans
        (((alike_zero_mul hx hx' y).add (refl z)).trans (multiplyAdd_of_factor (.inl hx') z).symm)
  have hsecond : Alike (Scalar.multiplyAdd x' y z) (Scalar.multiplyAdd x' y' z) := by
    rcases hy with rfl | ⟨hy, hy'⟩
    · exact refl _
    · exact (multiplyAdd_of_factor (.inr hy) z).trans
        (((alike_mul_zero x' hy hy').add (refl z)).trans (multiplyAdd_of_factor (.inr hy') z).symm)
  refine (hfirst.trans hsecond).trans ?_
  rcases hz with rfl | ⟨hz, hz'⟩
  · exact refl _
  · exact (multiplyAdd_of_term x' y' hz).trans (multiplyAdd_of_term x' y' hz').symm

/-- Dividing by the same scalar keeps scalars alike. -/
theorem div (hx : Alike x x') (y : α) : Alike (x / y) (x' / y) := by
  rcases hx with rfl | ⟨hx, hx'⟩
  · exact refl _
  · exact alike_zero_div hx hx' y

/-- Magnitudes of scalars that are alike are alike. -/
theorem magnitude (h : Alike x y) : Alike (Scalar.magnitude x) (Scalar.magnitude y) :=
  rel_ite (h.lt_iff (refl _)) h.neg h

end Arithmetic

end Alike

/-! ## Means of one number -/

section Mean

variable {α : Type} [Scalar α] [SignedZeros α]

open SignedZeros

/-- Zero is a zero. -/
theorem isZero_zero : IsZero (0.0 : α) :=
  have hzero := OrderedScalar.number_left (OrderedScalar.zero_le_one (α := α))
  ⟨hzero, hzero⟩

/-- The sum of one number is alike the number. -/
theorem Accumulator.alike_total_add {x : α} (h : Within (-1.0) 1.0 x) :
    Alike (zero.add x).total x := by
  have hnext : Alike (0.0 + x) x := alike_zero_add isZero_zero x
  -- Whichever summand counts as the larger one, the sum loses nothing.
  have hlost {lost : α} (hlost : IsZero lost) : Alike ((0.0 + x) + (0.0 + lost)) x :=
    (alike_add_zero _ ((alike_zero_add isZero_zero lost).symm.isZero hlost)).trans hnext
  unfold add total zero
  dsimp only
  split
  · refine hlost (Alike.isZero ?_ (isZero_sub_self h))
    exact ((Alike.refl x).sub hnext.symm).trans (alike_add_zero _ isZero_zero).symm
  · refine hlost (Alike.isZero ?_ (isZero_neg_add_self h))
    exact (((alike_zero_sub isZero_zero (0.0 + x)).trans hnext.neg).symm).add (Alike.refl x)

end Mean

/-! ## Exact scalars -/

section Exact

variable {K : Type} [Field K] [LinearOrder K] [IsStrictOrderedRing K]

/-- In a field zero has no sign. -/
theorem isZero_iff_eq_zero (x : K) : IsZero x ↔ x = 0 := by
  have hzero : (0.0 : K) = 0 := by norm_num
  rw [IsZero, hzero]
  exact ⟨fun h => le_antisymm h.1 h.2, fun h => ⟨h.le, h.ge⟩⟩

/-- In a field only equal numbers are alike. -/
theorem alike_iff_eq (x y : K) : Alike x y ↔ x = y := by
  rw [Alike, isZero_iff_eq_zero, isZero_iff_eq_zero]
  exact or_iff_left_of_imp fun h => h.1.trans h.2.symm

/-- The arithmetic of fields is exact. -/
instance SignedZeros.instOfField : SignedZeros K where
  isZero_neg h := by
    rw [isZero_iff_eq_zero] at h ⊢
    rw [h, neg_zero]
  alike_zero_add hx y := by
    rw [isZero_iff_eq_zero] at hx
    rw [alike_iff_eq, hx, zero_add]
  alike_add_zero x _ hy := by
    rw [isZero_iff_eq_zero] at hy
    rw [alike_iff_eq, hy, add_zero]
  alike_zero_sub hx y := by
    rw [isZero_iff_eq_zero] at hx
    rw [alike_iff_eq, hx, zero_sub]
  alike_sub_zero x _ hy := by
    rw [isZero_iff_eq_zero] at hy
    rw [alike_iff_eq, hy, sub_zero]
  alike_zero_mul hx hx' y := by
    rw [isZero_iff_eq_zero] at hx hx'
    rw [hx, hx']
    exact Alike.refl _
  alike_mul_zero x _ _ hy hy' := by
    rw [isZero_iff_eq_zero] at hy hy'
    rw [hy, hy']
    exact Alike.refl _
  alike_zero_div hx hx' y := by
    rw [isZero_iff_eq_zero] at hx hx'
    rw [hx, hx']
    exact Alike.refl _
  multiplyAdd_of_factor _ _ := Alike.refl _
  multiplyAdd_of_term x y z hz := by
    rw [isZero_iff_eq_zero] at hz
    rw [alike_iff_eq, multiplyAdd_eq, hz, add_zero]
  isZero_sub_self _ := by rw [isZero_iff_eq_zero, sub_self]
  isZero_neg_add_self _ := by rw [isZero_iff_eq_zero, neg_add_cancel]
  alike_div_one _ := by rw [alike_iff_eq, ofNat_eq_cast, Nat.cast_one, div_one]
  half_le_one := by norm_num
  neg_one_le_neg_half := by norm_num
  zero_le_linearLimit := by norm_num
  zero_le_encodeLimit := by norm_num
  zero_lt_powerless := by norm_num [Lab.powerless]
  half_turn := by norm_num
  neg_half_turn_lt_zero := by norm_num
  zero_le_half_turn := by norm_num

end Exact

end ColorWords
