import ColorWords.Least
import ColorWords.Proofs.Scalar.Order
import Mathlib.Data.List.FinRange

/-!
# The first least score

A scan over positions in ascending order returns the first one that attains the least score
below infinity. Positions whose score is not below infinity, or is not a number at all, never
matter, wherever they stand. The invariant speaks of the positions scanned so far.
-/

namespace ColorWords

open Scalar OrderedScalar

variable {α : Type} [Scalar α] {n : ℕ}

/-- What a scan has found: nothing among scores that all fail to be below infinity, or the
first of the given positions with the least score. -/
def IsFirstLeast (score : Fin n → α) (positions : List (Fin n)) : Option (Fin n × α) → Prop
  | none => ∀ j ∈ positions, belowInfinity (score j) = false
  | some (i, least) =>
    i ∈ positions ∧ least = score i ∧ belowInfinity least = true ∧
      ∀ j ∈ positions, belowInfinity (score j) = true →
        least ≤ score j ∧ (j < i → least < score j)

variable [OrderedScalar α]

/-- Scanning one more position keeps the invariant. -/
theorem IsFirstLeast.takeLess {score : Fin n → α} {positions : List (Fin n)}
    {best : Option (Fin n × α)} (h : IsFirstLeast score positions best) (i : Fin n)
    (hlast : ∀ j ∈ positions, j < i) :
    IsFirstLeast score (positions ++ [i]) (takeLess best i (score i)) := by
  cases best with
  | none =>
    by_cases hi : belowInfinity (score i) = true
    · simp only [ColorWords.takeLess, hi, if_true]
      refine ⟨by simp, rfl, hi, fun j hj hjscore => ?_⟩
      rcases List.mem_append.mp hj with hj | hj
      · exact absurd hjscore (by simp [h j hj])
      · obtain rfl := List.mem_singleton.mp hj
        exact ⟨number_of_belowInfinity hi, fun hlt => absurd hlt (lt_irrefl j)⟩
    · simp only [ColorWords.takeLess, hi]
      intro j hj
      rcases List.mem_append.mp hj with hj | hj
      · exact h j hj
      · obtain rfl := List.mem_singleton.mp hj
        simpa using hi
  | some found =>
    obtain ⟨k, least⟩ := found
    obtain ⟨hk, hleast, hbelow, hmin⟩ := h
    by_cases hless : score i < least
    · simp only [ColorWords.takeLess, hless, if_true]
      refine ⟨by simp, rfl, belowInfinity_of_lt hless, fun j hj hjscore => ?_⟩
      rcases List.mem_append.mp hj with hj | hj
      · have hstrict := lt_of_lt_of_le hless (hmin j hj hjscore).1
        exact ⟨le_of_lt hstrict, fun _ => hstrict⟩
      · obtain rfl := List.mem_singleton.mp hj
        exact ⟨number_of_belowInfinity hjscore, fun hlt => absurd hlt (lt_irrefl j)⟩
    · simp only [ColorWords.takeLess, hless, if_false]
      refine ⟨List.mem_append_left _ hk, hleast, hbelow, fun j hj hjscore => ?_⟩
      rcases List.mem_append.mp hj with hj | hj
      · exact hmin j hj hjscore
      · obtain rfl := List.mem_singleton.mp hj
        have hle := le_of_not_lt (number_of_belowInfinity hjscore)
          (number_of_belowInfinity hbelow) hless
        exact ⟨hle, fun hlt => absurd (hlt.trans (hlast k hk)) (lt_irrefl j)⟩

/-- Scanning further positions in ascending order keeps the invariant. -/
theorem IsFirstLeast.foldl {score : Fin n → α} {scanned rest : List (Fin n)}
    {best : Option (Fin n × α)} (h : IsFirstLeast score scanned best)
    (hsorted : (scanned ++ rest).Pairwise (· < ·)) :
    IsFirstLeast score (scanned ++ rest)
      (rest.foldl (fun best i => ColorWords.takeLess best i (score i)) best) := by
  induction rest generalizing scanned best with
  | nil => simpa using h
  | cons i rest ih =>
    have hlast : ∀ j ∈ scanned, j < i := fun j hj =>
      (List.pairwise_append.mp hsorted).2.2 j hj i List.mem_cons_self
    rw [List.append_cons] at hsorted ⊢
    exact ih (h.takeLess i hlast) hsorted

/-- The whole scan finds the first position with the least score below infinity. -/
theorem leastIndex?_isFirstLeast (score : Fin n → α) :
    IsFirstLeast score (List.finRange n) (leastIndex? n score) := by
  have hstart : IsFirstLeast score [] none := fun j hj => absurd hj List.not_mem_nil
  rw [leastIndex?, Fin.foldl_eq_finRange_foldl]
  exact hstart.foldl (List.pairwise_lt_finRange n)

/-- Among the same positions there is one result only. -/
theorem IsFirstLeast.unique {score : Fin n → α} {positions : List (Fin n)}
    {best other : Option (Fin n × α)} (h : IsFirstLeast score positions best)
    (hother : IsFirstLeast score positions other) : best = other := by
  have hnothing {i : Fin n} {least : α} (hnone : IsFirstLeast score positions none)
      (hsome : IsFirstLeast score positions (some (i, least))) : False := by
    obtain ⟨hi, rfl, hbelow, -⟩ := hsome
    exact absurd ((hnone i hi).symm.trans hbelow) (by decide)
  rcases best with _ | ⟨i, least⟩ <;> rcases other with _ | ⟨j, low⟩
  · rfl
  · exact (hnothing h hother).elim
  · exact (hnothing hother h).elim
  · obtain ⟨hi, rfl, hbelow, hmin⟩ := h
    obtain ⟨hj, rfl, hbelow', hmin'⟩ := hother
    -- Of two results the later one would be less than the earlier one.
    rcases lt_trichotomy i j with hij | rfl | hji
    · exact absurd (hmin j hj hbelow').1 (not_le_of_lt ((hmin' i hi hbelow).2 hij))
    · rfl
    · exact absurd (hmin' i hi hbelow).1 (not_le_of_lt ((hmin j hj hbelow').2 hji))

/-- The scan finds nothing exactly if no score is below infinity. -/
theorem leastIndex?_eq_none_iff (score : Fin n → α) :
    leastIndex? n score = none ↔ ∀ i, belowInfinity (score i) = false := by
  have hscan := leastIndex?_isFirstLeast score
  refine ⟨fun hnone i => ?_, fun hnone => hscan.unique fun i _ => hnone i⟩
  rw [hnone] at hscan
  exact hscan i (List.mem_finRange i)

/-- The scan finds a position exactly if its score is below infinity, no score below infinity is
less, and those of earlier positions are greater. -/
theorem leastIndex?_eq_some_iff (score : Fin n → α) (i : Fin n) (least : α) :
    leastIndex? n score = some (i, least) ↔
      least = score i ∧ belowInfinity (score i) = true ∧
        ∀ j, belowInfinity (score j) = true →
          score i ≤ score j ∧ (j < i → score i < score j) := by
  have hscan := leastIndex?_isFirstLeast score
  constructor
  · intro hsome
    rw [hsome] at hscan
    obtain ⟨-, rfl, hbelow, hmin⟩ := hscan
    exact ⟨rfl, hbelow, fun j => hmin j (List.mem_finRange j)⟩
  · rintro ⟨rfl, hbelow, hmin⟩
    exact hscan.unique ⟨List.mem_finRange i, rfl, hbelow, fun j _ => hmin j⟩

/-- Among scores below infinity the scan finds the first least one, if there are any. -/
theorem exists_leastIndex? (score : Fin n → α) (hn : 0 < n)
    (hbelow : ∀ i, belowInfinity (score i) = true) :
    ∃ i, leastIndex? n score = some (i, score i) ∧
      ∀ j, score i ≤ score j ∧ (j < i → score i < score j) := by
  have hne : leastIndex? n score ≠ none := fun hnone => by
    have hfirst := (leastIndex?_eq_none_iff score).mp hnone ⟨0, hn⟩
    rw [hbelow] at hfirst
    cases hfirst
  obtain ⟨⟨i, least⟩, hfound⟩ := Option.ne_none_iff_exists'.mp hne
  obtain ⟨rfl, -, hmin⟩ := (leastIndex?_eq_some_iff score i least).mp hfound
  exact ⟨i, hfound, fun j => hmin j (hbelow j)⟩

end ColorWords
