import ColorWords.Scalar

/-!
# The first least score

The position of the least score below infinity, the first of several equal ones. Scores that
compare with nothing are passed over wherever they stand.
-/

namespace ColorWords

variable {α : Type} [Scalar α]

/-- Keep the best position so far, or take the new one if its score is strictly less. -/
@[inline] def takeLess {n : Nat} (best : Option (Fin n × α)) (i : Fin n) (score : α) :
    Option (Fin n × α) :=
  match best with
  | none => if Scalar.belowInfinity score then some (i, score) else none
  | some (_, least) => if score < least then some (i, score) else best

/-- The first position with the least score, and that score. -/
@[inline] def leastIndex? (n : Nat) (score : Fin n → α) : Option (Fin n × α) :=
  Fin.foldl n (fun best i => takeLess best i (score i)) none

end ColorWords
