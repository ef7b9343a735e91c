import ColorWords.Proofs.Scalar.Binary64Signs
import ColorWords.Summation

/-!
# Compensated sums of floats

What rounding the sum loses of a term is computed without error, since the larger summand comes
first. Terms that are multiples of a small power of two keep all sums and losses such multiples. As
long as there are not too many terms, the carry therefore fits into a float with all of its bits,
and sum and carry together are the exact sum of the terms. The total is the exact sum rounded once.
-/

namespace ColorWords

open Scalar

namespace Binary64

/-- The number that a float denotes, and zero for all that are not finite. -/
noncomputable def denoted (x : Float) : ℝ := value x.toModel.unpack

end Binary64

namespace Accumulator

open Binary64

/-- Adding a term rounds the sum, and what this loses is added to the carry. -/
theorem add_rounds {acc : Accumulator Float} {term : Float} {s q : ℝ} (hs : HasValue acc.sum s)
    (hq : HasValue term q) (hrange : |s| + |q| ≤ 2 ^ (1022 : ℤ)) :
    ∃ r lost, HasValue (acc.add term).sum r ∧ RoundsTo (s + q) r ∧ HasValue lost (s + q - r) ∧
      (acc.add term).carry = acc.carry + lost := by
  have hsum : |s + q| ≤ 2 ^ (1023 : ℤ) :=
    ((abs_add_le s q).trans hrange).trans (zpow_le_zpow_right₀ one_le_two (by norm_num))
  obtain ⟨r, hr, hrounds⟩ := hs.add hq hsum
  refine ⟨r, _, hr, hrounds, ?_, rfl⟩
  have hsmaller : magnitude acc.sum < magnitude term ↔ |s| < |q| := hs.magnitude.lt_iff hq.magnitude
  split
  · next hlt =>
    rw [add_comm s q] at hrounds ⊢
    exact hq.lost hs hr hrounds (hsmaller.mp hlt).le (by linarith)
  · next hge =>
    exact hs.lost hq hr hrounds (not_lt.mp fun hlt => hge (hsmaller.mpr hlt)) hrange

/-- What holds of sum and carry after a number of terms, which are multiples of `2 ^ -56` and not
above one in magnitude. -/
structure Holds (acc : Accumulator Float) (n : ℕ) (s c : ℝ) : Prop where
  sum : HasValue acc.sum s
  carry : HasValue acc.carry c
  sum_mem : s ∈ grid (-56)
  carry_mem : c ∈ grid (-56)
  carry_le : |c| ≤ n * 2 ^ (-28 : ℤ)
  exact_le : |s + c| ≤ n
  plain : IsPlain acc.sum

/-- It holds of no terms. -/
theorem holds_zero : Holds zero 0 0 0 where
  sum := hasValue_zero
  carry := hasValue_zero
  sum_mem := (grid _).zero_mem
  carry_mem := (grid _).zero_mem
  carry_le := by simp
  exact_le := by simp
  plain := isPlain_zero

/-- The summands of the next sum are small if there are not too many terms. -/
theorem Holds.abs_sum_add_lt {acc : Accumulator Float} {n : ℕ} {s c q : ℝ} (h : Holds acc n s c)
    (hle : |q| ≤ 1) (hn : n + 1 ≤ 2 ^ 25) : |s| + |q| < 2 ^ (26 : ℤ) := by
  have hcount : (n : ℝ) + 1 ≤ 2 ^ 25 := by exact_mod_cast hn
  have hcarry := h.carry_le
  have htriangle := abs_sub (s + c) c
  rw [add_sub_cancel_right] at htriangle
  norm_num at hcarry ⊢
  linarith [h.exact_le]

/-- Adding a term adds it to the exact sum and keeps all that holds, unless there are too many. -/
theorem Holds.add {acc : Accumulator Float} {term : Float} {n : ℕ} {s c q : ℝ}
    (h : Holds acc n s c) (hq : HasValue term q) (hmem : q ∈ grid (-56)) (hle : |q| ≤ 1)
    (hn : n + 1 ≤ 2 ^ 25) : ∃ r, Holds (acc.add term) (n + 1) r (c + (s + q - r)) := by
  have hsmall := h.abs_sum_add_lt hle hn
  have hsum : |s + q| < 2 ^ (26 : ℤ) := (abs_add_le s q).trans_lt hsmall
  have hrange {k : ℤ} (hk : 26 ≤ k) : (2 : ℝ) ^ (26 : ℤ) ≤ 2 ^ k :=
    zpow_le_zpow_right₀ one_le_two hk
  obtain ⟨r, lost, hr, hrounds, hlost, hsplit⟩ :=
    add_rounds h.sum hq (hsmall.le.trans (hrange (by norm_num)))
  have hsumMem : s + q ∈ grid (-56) := (grid _).add_mem h.sum_mem hmem
  have hrMem := hrounds.mem hsumMem
  have hcarryMem : c + (s + q - r) ∈ grid (-56) :=
    (grid _).add_mem h.carry_mem ((grid _).sub_mem hsumMem hrMem)
  have herror : |s + q - r| ≤ 2 ^ (-28 : ℤ) := hrounds.error_le_of_lt (by norm_num) hsum
  have hcarryLe : |c + (s + q - r)| ≤ (n + 1 : ℕ) * 2 ^ (-28 : ℤ) := by
    have htriangle := abs_add_le c (s + q - r)
    push_cast
    linarith [h.carry_le]
  -- The carry has at most as many bits as a float.
  have hbits : |c + (s + q - r)| ≤ 2 ^ (-3 : ℤ) := by
    have hcount : ((n + 1 : ℕ) : ℝ) ≤ 2 ^ 25 := by exact_mod_cast hn
    norm_num at hcarryLe hcount ⊢
    linarith
  refine ⟨r, ⟨hr, ?_, hrMem, hcarryMem, hcarryLe, ?_, ?_⟩⟩
  · rw [hsplit]
    exact h.carry.add_exact hlost
      (isRepresentable_of_mem_grid (by norm_num) hcarryMem (hbits.trans_eq (by norm_num)))
      (hbits.trans (zpow_le_zpow_right₀ one_le_two (by norm_num)))
  · have hexact : r + (c + (s + q - r)) = s + c + q := by ring
    rw [hexact]
    push_cast
    linarith [abs_add_le (s + c) q, h.exact_le]
  · exact h.plain.add h.sum hq (hsum.le.trans (hrange (by norm_num)))

/-- Adding terms adds them to the exact sum, unless there are too many. -/
theorem Holds.foldl_add {terms : List Float} {acc : Accumulator Float} {n : ℕ} {s c : ℝ}
    (h : Holds acc n s c)
    (hterms : ∀ term ∈ terms, ∃ q, HasValue term q ∧ q ∈ grid (-56) ∧ |q| ≤ 1)
    (hn : n + terms.length ≤ 2 ^ 25) :
    ∃ s' c', Holds (terms.foldl .add acc) (n + terms.length) s' c' ∧
      s' + c' = s + c + (terms.map denoted).sum := by
  induction terms generalizing acc n s c with
  | nil => exact ⟨s, c, h, by simp⟩
  | cons term rest ih =>
    rw [List.forall_mem_cons] at hterms
    rw [List.length_cons] at hn
    obtain ⟨⟨q, hq, hmem, hle⟩, hrest⟩ := hterms
    obtain ⟨r, hr⟩ := h.add hq hmem hle (by omega)
    obtain ⟨s', c', hholds, hexact⟩ := ih hr hrest (by omega)
    refine ⟨s', c', ?_, ?_⟩
    · rw [List.length_cons, ← add_assoc, add_right_comm]
      exact hholds
    · have hdenoted : denoted term = q := hq.2
      rw [hexact, List.map_cons, List.sum_cons, hdenoted]
      ring

/-- The total is the exact sum rounded once. -/
theorem Holds.total {acc : Accumulator Float} {n : ℕ} {s c : ℝ} (h : Holds acc n s c)
    (hn : n ≤ 2 ^ 25) : ∃ r, HasValue acc.total r ∧ RoundsTo (s + c) r ∧ IsPlain acc.total := by
  have hrange : |s + c| ≤ 2 ^ (1023 : ℤ) := by
    have hcount : (n : ℝ) ≤ 2 ^ (25 : ℤ) := by exact_mod_cast hn
    exact h.exact_le.trans (hcount.trans (zpow_le_zpow_right₀ one_le_two (by norm_num)))
  obtain ⟨r, hr, hrounds⟩ := h.sum.add h.carry hrange
  exact ⟨r, hr, hrounds, h.plain.add h.sum h.carry hrange⟩

/-- Sum and carry make up the exact sum, and the total is that rounded once. It is not the negative
zero, so that the exact sum determines it. -/
structure IsExact (acc : Accumulator Float) (exact : ℝ) : Prop where
  parts : ∃ s c, HasValue acc.sum s ∧ HasValue acc.carry c ∧ s + c = exact
  total : ∃ r, HasValue acc.total r ∧ RoundsTo exact r
  plain : IsPlain acc.total
  mem : exact ∈ grid (-1074)

/-- The sum of not too many terms is exact. -/
theorem isExact_ofList {terms : List Float}
    (hterms : ∀ term ∈ terms, ∃ q, HasValue term q ∧ q ∈ grid (-56) ∧ |q| ≤ 1)
    (hlength : terms.length ≤ 2 ^ 25) : (ofList terms).IsExact (terms.map denoted).sum := by
  obtain ⟨s, c, h, hexact⟩ := holds_zero.foldl_add hterms (by rwa [zero_add])
  rw [zero_add] at h
  rw [add_zero, zero_add] at hexact
  obtain ⟨r, hr, hrounds, hplain⟩ := h.total hlength
  rw [← hexact]
  exact ⟨⟨s, c, h.sum, h.carry, rfl⟩, ⟨r, hr, hrounds⟩, hplain,
    grid_le (by norm_num) ((grid _).add_mem h.sum_mem h.carry_mem)⟩

namespace IsExact

variable {acc other : Accumulator Float} {exact : ℝ}

/-- The exact sum determines the total bit for bit. -/
theorem total_eq (h : acc.IsExact exact) (hother : other.IsExact exact) :
    acc.total = other.total := by
  obtain ⟨r, hr, hrounds⟩ := h.total
  obtain ⟨r', hr', hrounds'⟩ := hother.total
  obtain rfl := hrounds.unique hrounds'
  exact hr.eq_of_isPlain hr' h.plain hother.plain

/-- The total is positive exactly if the exact sum is. -/
theorem zero_lt_total_iff (h : acc.IsExact exact) : 0.0 < acc.total ↔ 0 < exact := by
  obtain ⟨r, hr, hrounds⟩ := h.total
  rw [hasValue_zero.lt_iff hr, hrounds.pos_iff h.mem]

/-- The total is negative exactly if the exact sum is. -/
theorem total_lt_zero_iff (h : acc.IsExact exact) : acc.total < 0.0 ↔ exact < 0 := by
  obtain ⟨r, hr, hrounds⟩ := h.total
  have hneg := hrounds.neg.pos_iff ((grid _).neg_mem h.mem)
  rw [hr.lt_iff hasValue_zero, ← neg_pos, hneg, neg_pos]

end IsExact

end Accumulator

end ColorWords
