import ColorWords.Decimal

/-!
# Shortest decimals

The decimal with the fewest digits inside an interval of rationals, found on the coarsest
grid of powers of ten that has a point in the interval. A grid with a point in the
interval has one next to any value inside, so two candidates per grid are enough.
-/

namespace ColorWords

/-- A value between two ends, all as numerators over one denominator. -/
structure Interval where
  low : Nat
  value : Nat
  high : Nat
  denominator : Nat
  closed : Bool

namespace Interval

/-- Determine whether the interval holds the rational `numerator / denominator`, both already
scaled by `unit`. -/
def holds (interval : Interval) (unit numerator : Nat) : Bool :=
  if interval.closed then
    decide (interval.low * unit ≤ numerator) && decide (numerator ≤ interval.high * unit)
  else
    decide (interval.low * unit < numerator) && decide (numerator < interval.high * unit)

/-- The multiple of `10 ^ grid` inside the interval that is nearest to its value. Of two at
the same distance the larger one wins. -/
def onGrid? (interval : Interval) (grid : Int) : Option Nat :=
  let unit := Nat.pow 10 (-grid).toNat
  let step := interval.denominator * Nat.pow 10 grid.toNat
  let value := interval.value * unit
  let below := value / step
  let above := below + 1
  if interval.holds unit (below * step) then
    if interval.holds unit (above * step) &&
        decide (above * step - value ≤ value - below * step) then
      some above
    else some below
  else if interval.holds unit (above * step) then some above
  else none

/-- The first decimal found on grids from `10 ^ grid` downwards, or zero if the given number
of grids holds none. -/
def shortestFrom (interval : Interval) : Nat → Int → Decimal
  | 0, _ => ⟨0, 0⟩
  | grids + 1, grid =>
    match interval.onGrid? grid with
    | some coefficient => ⟨coefficient, grid⟩
    | none => shortestFrom interval grids (grid - 1)

end Interval

end ColorWords
