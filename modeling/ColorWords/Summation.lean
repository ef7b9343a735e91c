import ColorWords.Scalar

/-!
# Compensated sums

A running sum that keeps the rounding error of each addition aside, and the mean built on
it. In exact arithmetic the error part stays zero and both are the plain sum and mean.
-/

namespace ColorWords

/-- A running sum and the rounding error it has accumulated. -/
structure Accumulator (α : Type) where
  sum : α
  carry : α

namespace Accumulator

variable {α : Type} [Scalar α]

/-- The sum of no terms. -/
def zero : Accumulator α := ⟨0.0, 0.0⟩

/-- Add a term. What the rounded sum loses of the smaller summand goes into the carry. -/
@[inline] def add (acc : Accumulator α) (term : α) : Accumulator α :=
  let next := acc.sum + term
  let lost :=
    if Scalar.magnitude acc.sum < Scalar.magnitude term then (term - next) + acc.sum
    else (acc.sum - next) + term
  ⟨next, acc.carry + lost⟩

/-- The sum with its error put back. -/
@[inline] def total (acc : Accumulator α) : α := acc.sum + acc.carry

/-- Add up the terms in order. -/
def ofList (terms : List α) : Accumulator α := terms.foldl add zero

end Accumulator

end ColorWords
