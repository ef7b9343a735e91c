import ColorWords.Scalar
import Mathlib.Data.Nat.Init

/-!
# Comparisons of scalars

The laws that comparisons of floats and of exact numbers share. A scalar that compares with
itself is a number, and all numbers are ordered linearly. What is not a number compares with
nothing, so a comparison that holds says that both of its sides are numbers.

Under these laws limiting a scalar to a range leads into the range, whatever the scalar was.
-/

namespace ColorWords

open Scalar

/-- Two is at least two. This is what the numeral refers to in definitions over a field, which need
no proof of their own for it then. -/
instance instAtLeastTwoTwo : Nat.AtLeastTwo 2 := inferInstance

/-- Comparisons that order all numbers linearly and hold of nothing else.

What is less than anything is below infinity, and what is below infinity is a number. The
constants that limit channels stand in their usual order. -/
class OrderedScalar (α : Type) [Scalar α] : Prop where
  number_left {x y : α} : x ≤ y → x ≤ x
  number_right {x y : α} : x ≤ y → y ≤ y
  le_trans {x y z : α} : x ≤ y → y ≤ z → x ≤ z
  le_total {x y : α} : x ≤ x → y ≤ y → x ≤ y ∨ y ≤ x
  lt_iff {x y : α} : x < y ↔ x ≤ y ∧ ¬ y ≤ x
  belowInfinity_of_lt {x y : α} : x < y → belowInfinity x = true
  number_of_belowInfinity {x : α} : belowInfinity x = true → x ≤ x
  zero_le_one : (0.0 : α) ≤ 1.0
  neg_half_le_zero : (-0.5 : α) ≤ 0.0
  zero_le_half : (0.0 : α) ≤ 0.5

namespace OrderedScalar

variable {α : Type} [Scalar α] [OrderedScalar α] {x y z : α}

/-- The weak order follows from the strict one. -/
theorem le_of_lt (h : x < y) : x ≤ y := (lt_iff.mp h).1

/-- The strict order excludes the weak one in the other direction. -/
theorem not_le_of_lt (h : x < y) : ¬ y ≤ x := (lt_iff.mp h).2

/-- Of two numbers one is less unless the other is at most as large. -/
theorem lt_of_not_le (hx : x ≤ x) (hy : y ≤ y) (h : ¬ y ≤ x) : x < y :=
  lt_iff.mpr ⟨(le_total hx hy).resolve_right h, h⟩

/-- Of two numbers one is at most as large unless the other is less. -/
theorem le_of_not_lt (hx : x ≤ x) (hy : y ≤ y) (h : ¬ x < y) : y ≤ x := by
  by_cases hyx : y ≤ x
  · exact hyx
  · exact absurd (lt_of_not_le hx hy hyx) h

/-- A scalar less than one that is at most a third is less than the third. -/
theorem lt_of_lt_of_le (hxy : x < y) (hyz : y ≤ z) : x < z :=
  lt_iff.mpr ⟨le_trans (le_of_lt hxy) hyz, fun hzx => not_le_of_lt hxy (le_trans hyz hzx)⟩

end OrderedScalar

/-- Comparing by a key is an order if comparing keys is. -/
theorem transCmp_comap {β γ : Type} (compare : γ → γ → Ordering) [Std.TransCmp compare]
    (key : β → γ) : Std.TransCmp fun x y => compare (key x) (key y) where
  eq_swap := Std.OrientedCmp.eq_swap
  isLE_trans := Std.TransCmp.isLE_trans

/-- The scalar lies between the two limits. -/
def Within {α : Type} [Scalar α] (low high x : α) : Prop := low ≤ x ∧ x ≤ high

section Limits

variable {α : Type} [Scalar α] [OrderedScalar α] {low high x : α}

open OrderedScalar

/-- What is left after replacing what is not a number is a number. -/
theorem numberOrZero_number (x : α) : numberOrZero x ≤ numberOrZero x := by
  unfold numberOrZero
  split
  · assumption
  · exact number_left (zero_le_one (α := α))

/-- Limiting a number to a range leads into the range. -/
theorem clamp_within (hlimits : low ≤ high) (hx : x ≤ x) : Within low high (clamp low high x) := by
  have hlow : low ≤ low := number_left hlimits
  have hhigh : high ≤ high := number_right hlimits
  unfold clamp
  split
  · exact ⟨hlow, hlimits⟩
  · next hnotLow =>
    split
    · exact ⟨hlimits, hhigh⟩
    · next hnotHigh => exact ⟨le_of_not_lt hx hlow hnotLow, le_of_not_lt hhigh hx hnotHigh⟩

/-- Limiting any scalar to the unit range leads into it. -/
theorem unit_within (x : α) : Within 0.0 1.0 (unit x) :=
  clamp_within zero_le_one (numberOrZero_number x)

end Limits

end ColorWords
