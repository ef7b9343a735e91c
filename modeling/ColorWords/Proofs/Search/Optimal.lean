import ColorWords.Proofs.Color.FloatDistance
import ColorWords.Proofs.Least
import ColorWords.Proofs.Palette.Order
import ColorWords.Proofs.Search.Tuple

/-!
# The winner of a search

A search tries every intensity with every tuple of candidates exactly once: the number of a
combination determines the intensity and the tuple, and each pair has a number. Together with
the scan for the first least score this makes the winner optimal, and the first among equals
in the order of intensities and then of tuple numbers.

The only facts about scalars that this needs are that numbers are ordered linearly and that
scores of normal colors are numbers below infinity. Both hold of 64-bit floats as well as in
exact arithmetic.

A search fails only if there are candidates and more of them are mixed than a selection can hold. As
long as all tuples can be numbered, this takes a palette with a single candidate.
-/

namespace ColorWords

open Scalar

namespace Search

variable {α : Type} [Scalar α]

/-- The squared distance between the target and an intensity applied to a mix. -/
def tupleScore [GamutMap α] (candidates : List (Color α)) (target : Color α)
    (intensity : Intensity) (indices : List ℕ) : α :=
  (intensity.apply (Color.mix (colorsAt candidates indices))).distanceSquared target

/-- The combination comes earlier: its intensity has a lower code, or else its tuple has a
lower number. -/
def Precedes (base : ℕ) (intensity : Intensity) (indices : List ℕ) (later : Match α) : Prop :=
  intensity.code < later.intensity.code ∨
    intensity = later.intensity ∧ Nat.ofDigits base indices < Nat.ofDigits base later.indices

/-! ## Numbers of combinations -/

/-- The number of an intensity with the mix of number `n`. -/
def combinationIndex {count : ℕ} (intensity : Intensity) (n : Fin count) :
    Fin (Intensity.count * count) :=
  ⟨intensity.code * count + n, by
    calc intensity.code * count + n < intensity.code * count + count :=
          Nat.add_lt_add_left n.isLt _
      _ = (intensity.code + 1) * count := (Nat.succ_mul _ _).symm
      _ ≤ Intensity.count * count := Nat.mul_le_mul_right _ intensity.code.isLt⟩

/-- Every pair of an intensity and a mix has a number. -/
theorem combination_combinationIndex {count : ℕ} (intensity : Intensity) (n : Fin count) :
    combination count (combinationIndex intensity n) = (intensity, n) := by
  have hpos : 0 < count := n.pos
  have hdiv : (intensity.code * count + n) / count = intensity.code := by
    rw [mul_comm, Nat.mul_add_div hpos, Nat.div_eq_of_lt n.isLt, add_zero]
  have hmod : (intensity.code * count + n) % count = n := by
    rw [mul_comm, Nat.mul_add_mod, Nat.mod_eq_of_lt n.isLt]
  simp only [combination, combinationIndex, hdiv, hmod, Fin.eta]

/-- A number is that of its own combination. -/
theorem combinationIndex_combination {count : ℕ} (i : Fin (Intensity.count * count)) :
    combinationIndex (combination count i).1 (combination count i).2 = i :=
  Fin.ext (Nat.div_add_mod' i count)

/-- Numbers of combinations compare by intensity and then by mix. -/
theorem combinationIndex_lt {count : ℕ} {intensity later : Intensity} {n k : Fin count}
    (h : intensity.code < later.code ∨ intensity = later ∧ n < k) :
    combinationIndex intensity n < combinationIndex later k := by
  rcases h with hcode | ⟨rfl, hnk⟩
  · have hstep : (intensity.code + 1) * count ≤ later.code * count :=
      Nat.mul_le_mul_right _ hcode
    rw [Nat.succ_mul] at hstep
    exact Fin.lt_def.mpr (Nat.lt_of_lt_of_le (Nat.add_lt_add_left n.isLt _)
      (hstep.trans (Nat.le_add_right _ _)))
  · exact Fin.lt_def.mpr (Nat.add_lt_add_left hnk _)

/-! ## The search over candidates -/

/-- Every tuple to try is mixed once. -/
theorem size_mixes (candidates : List (Color α)) (length : ℕ) :
    (mixes candidates.toArray length).size = tupleCount candidates.length length := by
  rw [← Array.length_toList, mixes_toList, List.length_map, List.length_range]

/-- Some tuple is tried if there are candidates. -/
theorem tupleCount_pos {base : ℕ} (hbase : 0 < base) (length : ℕ) : 0 < tupleCount base length :=
  lt_min (Nat.pow_pos hbase) (by decide)

/-- A tuple is tried if there are no more tuples than can be numbered. -/
theorem ofDigits_lt_tupleCount {base length : ℕ} {indices : List ℕ}
    (h : IsTuple base length indices) (hfit : base ^ length ≤ maxTuples) :
    Nat.ofDigits base indices < tupleCount base length := by
  rw [tupleCount, Nat.pow_eq, min_eq_left hfit]
  exact ofDigits_lt h

variable [GamutMap α]

/-- Each position of the scan scores the combination with its number. -/
theorem score_eq (candidates : List (Color α)) (target : Color α) (length : ℕ)
    (i : Fin (Intensity.count * (mixes candidates.toArray length).size)) :
    score (mixes candidates.toArray length) target i =
      tupleScore candidates target (combination _ i).1
        (digits candidates.length length (combination _ i).2) := by
  unfold score tupleScore
  rw [← getElem_mixes]
  rfl

/-- The best combination is that of the position which the scan finds. -/
theorem best?_of_leastIndex? {candidates : List (Color α)} {target : Color α} {length : ℕ}
    {i : Fin (Intensity.count * (mixes candidates.toArray length).size)} {distance : α}
    (h : leastIndex? _ (score (mixes candidates.toArray length) target) = some (i, distance)) :
    best? candidates.toArray target length =
      some
        ⟨(combination _ i).1, digits candidates.length length (combination _ i).2, distance⟩ := by
  simp [best?, h]

variable [OrderedScalar α] [BoundedScores α]

/-- Against a normal target every combination has a score below infinity. -/
theorem belowInfinity_tupleScore (candidates : List (Color α)) {target : Color α}
    (htarget : target.IsNormal) (intensity : Intensity) (indices : List ℕ) :
    belowInfinity (tupleScore candidates target intensity indices) = true :=
  BoundedScores.belowInfinity_distanceSquared ((Color.isNormal_mix _).apply intensity) htarget

/-- A search over candidates returns the first least combination among the tuples it tries. -/
theorem best?_spec {candidates : List (Color α)} (hcandidates : candidates ≠ [])
    {target : Color α} (htarget : target.IsNormal) (length : ℕ) :
    ∃ found, best? candidates.toArray target length = some found ∧
      IsTuple candidates.length length found.indices ∧
      found.distance = tupleScore candidates target found.intensity found.indices ∧
      ∀ intensity indices, IsTuple candidates.length length indices →
        Nat.ofDigits candidates.length indices < tupleCount candidates.length length →
          found.distance ≤ tupleScore candidates target intensity indices ∧
            (Precedes candidates.length intensity indices found →
              found.distance < tupleScore candidates target intensity indices) := by
  have hbase : 0 < candidates.length := List.length_pos_iff.mpr hcandidates
  have hsize := size_mixes candidates length
  have hpos : 0 < Intensity.count * (mixes candidates.toArray length).size :=
    Nat.mul_pos (by decide) (hsize ▸ tupleCount_pos hbase length)
  obtain ⟨i, hbest, hmin⟩ :=
    exists_leastIndex? (score (mixes candidates.toArray length) target) hpos fun i => by
      rw [score_eq]
      exact belowInfinity_tupleScore candidates htarget _ _
  refine ⟨_, best?_of_leastIndex? hbest, isTuple_digits hbase _ _,
    score_eq candidates target _ i, ?_⟩
  intro intensity indices htuple htried
  -- The combination has a number, and the scan has compared the winner with it.
  let n : Fin (mixes candidates.toArray length).size :=
    ⟨Nat.ofDigits candidates.length indices, hsize ▸ htried⟩
  have hscore : score (mixes candidates.toArray length) target (combinationIndex intensity n) =
      tupleScore candidates target intensity indices := by
    rw [score_eq, combination_combinationIndex, digits_ofDigits htuple]
  have hcompare := hmin (combinationIndex intensity n)
  rw [hscore] at hcompare
  refine ⟨hcompare.1, fun hprecedes => hcompare.2 ?_⟩
  rw [← combinationIndex_combination i]
  refine combinationIndex_lt (hprecedes.imp_right fun ⟨hcode, hnumber⟩ => ⟨hcode, ?_⟩)
  refine Fin.lt_def.mpr (hnumber.trans_le ?_)
  rw [ofDigits_digits]
  exact Nat.mod_le _ _

end Search

namespace Palette

open Search

variable {α : Type} [Scalar α] [ColorModel α] {palette : Palette α} {length : ℕ}

/-- There are no more tuples than can be numbered, and a selection has room for one of them. -/
structure Fits (palette : Palette α) (length : ℕ) : Prop where
  tuples : palette.candidates.length ^ length ≤ maxTuples
  selection : palette.candidates.length = 1 → length ≤ maxSelection

/-- Of two or more candidates there would be more tuples than can be numbered. -/
theorem Fits.le_maxSelection (h : palette.Fits length) (hcandidates : palette.candidates ≠ []) :
    length ≤ maxSelection := by
  rcases eq_or_ne palette.candidates.length 1 with hone | hne
  · exact h.selection hone
  · have hpos := List.length_pos_iff.mpr hcandidates
    have hpow : 2 ^ length ≤ maxTuples :=
      (Nat.pow_le_pow_left (by omega) length).trans h.tuples
    have hlt : length < 64 := (Nat.pow_lt_pow_iff_right one_lt_two).mp (hpow.trans_lt (by decide))
    exact hlt.le.trans (by decide)

variable [GamutMap α] {target : Color α}

/-- A search of a palette without candidates finds nothing. -/
theorem search?_of_eq_nil (h : palette.candidates = []) (target : Color α) (length : ℕ) :
    palette.search? target length = .ok none := by
  simp [search?, h]

/-- At least one color is mixed, and a selection has room for one. -/
theorem maxSelection_lt_max_iff : maxSelection < max length 1 ↔ maxSelection < length := by
  rw [lt_max_iff, or_iff_left (by decide)]

/-- A search of a palette is one over its candidates, if there are any and a selection has room for
as many as are mixed. -/
theorem search?_of_ne_nil (h : palette.candidates ≠ []) (hlength : length ≤ maxSelection)
    (target : Color α) :
    palette.search? target length =
      .ok (best? palette.candidates.toArray target (max length 1)) := by
  have hroom := maxSelection_lt_max_iff.not.mpr hlength.not_gt
  simp [search?, h, hroom]

/-- A search of a palette with candidates fails if a selection has no room for as many as are
mixed. -/
theorem search?_of_lt (h : palette.candidates ≠ []) (hlength : maxSelection < length)
    (target : Color α) : palette.search? target length = .error .selectionTooLong := by
  simp [search?, h, maxSelection_lt_max_iff.mpr hlength]

/-- A search fails exactly if there are candidates and a selection has no room for as many as are
mixed. -/
theorem search?_eq_error_iff {e : SearchError} :
    palette.search? target length = .error e ↔
      palette.candidates ≠ [] ∧ maxSelection < length := by
  by_cases hcandidates : palette.candidates = []
  · simp [search?_of_eq_nil hcandidates, hcandidates]
  · rcases le_or_gt length maxSelection with hlength | hlength
    · simp [search?_of_ne_nil hcandidates hlength, hlength.not_gt]
    · cases e
      simp [search?_of_lt hcandidates hlength, hcandidates, hlength]

/-- What a search finds is a tuple of candidates. -/
theorem isTuple_of_search?_eq_some {found : Match α}
    (h : palette.search? target length = .ok (some found)) :
    IsTuple palette.candidates.length (max length 1) found.indices := by
  have hcandidates : palette.candidates ≠ [] := fun hnil => by
    rw [search?_of_eq_nil hnil] at h
    cases h
  have hlength : length ≤ maxSelection := not_lt.mp fun hlt => by
    rw [search?_of_lt hcandidates hlt] at h
    cases h
  rw [search?_of_ne_nil hcandidates hlength, Except.ok.injEq, best?, Option.map_eq_some_iff] at h
  obtain ⟨⟨i, distance⟩, -, rfl⟩ := h
  exact isTuple_digits (List.length_pos_iff.mpr hcandidates) _ _

variable [OrderedScalar α] [BoundedScores α]

/-- A search of a palette finds nothing exactly if no named color has any alpha, and it fails
exactly if one has and a selection has no room for as many colors as are mixed. Otherwise, as long
as all tuples can be numbered, what it finds is the first of all combinations with the least
distance. -/
theorem search?_optimal (palette : Palette α) (target : Color α) (htarget : target.IsNormal)
    (length : ℕ) :
    (palette.search? target length = .ok none ↔
      ¬ ∃ entry ∈ palette.entries, (0.0 : α) < entry.2.alpha) ∧
    (palette.search? target length = .error .selectionTooLong ↔
      (∃ entry ∈ palette.entries, (0.0 : α) < entry.2.alpha) ∧ maxSelection < length) ∧
    (1 ≤ palette.candidates.length → palette.Fits (max length 1) →
      ∃ found, palette.search? target length = .ok (some found) ∧
        found.indices.length = max length 1 ∧
        (∀ i ∈ found.indices, i < palette.candidates.length) ∧
        found.distance = tupleScore palette.candidates target found.intensity found.indices ∧
        ∀ (intensity : Intensity) (indices : List ℕ), indices.length = max length 1 →
          (∀ i ∈ indices, i < palette.candidates.length) →
            found.distance ≤ tupleScore palette.candidates target intensity indices ∧
              (Precedes palette.candidates.length intensity indices found →
                found.distance < tupleScore palette.candidates target intensity indices)) := by
  refine ⟨?_, ?_, ?_⟩
  · rw [← candidates_eq_nil_iff]
    refine ⟨fun hnone => ?_, fun hnil => search?_of_eq_nil hnil target length⟩
    by_contra hcandidates
    rcases le_or_gt length maxSelection with hlength | hlength
    · obtain ⟨found, hfound, -⟩ := best?_spec hcandidates htarget (max length 1)
      rw [search?_of_ne_nil hcandidates hlength, hfound] at hnone
      cases hnone
    · rw [search?_of_lt hcandidates hlength] at hnone
      cases hnone
  · rw [search?_eq_error_iff, ne_eq, candidates_eq_nil_iff, not_not]
  · intro hbase hfit
    have hcandidates : palette.candidates ≠ [] := List.length_pos_iff.mp hbase
    have hlength := (le_max_left _ _).trans (hfit.le_maxSelection hcandidates)
    obtain ⟨found, hfound, htuple, hdistance, hmin⟩ := best?_spec hcandidates htarget (max length 1)
    rw [search?_of_ne_nil hcandidates hlength, hfound]
    refine ⟨found, rfl, htuple.1, htuple.2, hdistance, fun intensity indices hlength hlt => ?_⟩
    have hindices : IsTuple palette.candidates.length (max length 1) indices := ⟨hlength, hlt⟩
    exact hmin intensity indices hindices (ofDigits_lt_tupleCount hindices hfit.tuples)

/-- No pair of standard colors is closer to the byte color `#123456` than the pair found. -/
theorem search?_optimal_standard :
    let palette : Palette Float := standard
    let target : Color Float := Color.ofBytes ⟨0x12, 0x34, 0x56⟩
    ∃ found, palette.search? target 2 = .ok (some found) ∧ found.indices.length = 2 ∧
      ∀ (intensity : Intensity) (indices : List ℕ), indices.length = 2 → (∀ i ∈ indices, i < 52) →
        found.distance ≤ tupleScore palette.candidates target intensity indices ∧
          (Precedes 52 intensity indices found →
            found.distance < tupleScore palette.candidates target intensity indices) := by
  intro palette target
  have hcount : palette.candidates.length = 52 := length_candidates_standard
  have htarget : target.IsNormal := Color.isNormal_make _ _
  have hfit : palette.Fits (max 2 1) := ⟨by rw [hcount]; decide, fun _ => by decide⟩
  obtain ⟨found, hfound, hlength, -, -, hmin⟩ := (search?_optimal palette target htarget 2).2.2
    (by rw [hcount]; decide) hfit
  rw [hcount] at hmin
  exact ⟨found, hfound, hlength, hmin⟩

/-- A gray that is the only candidate cannot be searched for with 2 ^ 58 colors, although there is
a single tuple of them. -/
theorem search?_too_long :
    let gray : Color Float := Color.solid ⟨0.5, 0.0, 0.0⟩
    let palette : Palette Float := ⟨⟨[("gray", gray)], []⟩, by decide⟩
    gray.IsNormal ∧ palette.candidates.length = 1 ∧
      palette.candidates.length ^ max (2 ^ 58) 1 ≤ maxTuples ∧
      palette.search? gray (2 ^ 58) = .error .selectionTooLong := by
  intro gray palette
  have hcount : palette.candidates.length = 1 := by
    rw [length_candidates]
    decide +kernel
  refine ⟨Color.isNormal_make _ _, hcount, ?_, ?_⟩
  · rw [hcount, one_pow]
    decide
  · exact search?_of_lt (List.length_pos_iff.mp (hcount ▸ one_pos)) (by decide) gray

end Palette

end ColorWords
