import ColorWords.Palette.Standard
import ColorWords.Scalar.Binary64
import ColorWords.Search
import Mathlib.Data.List.Basic

/-!
# What the orders of names hold

Each order is a rearrangement: the order by hue holds exactly the named colors with any alpha.
-/

namespace ColorWords.Palette

variable {α : Type}

/-- Sorting named colors only rearranges them. -/
theorem sortBy_perm (order : Color α → Color α → Ordering) (entries : List (String × Color α)) :
    (sortBy order entries).Perm entries := List.mergeSort_perm _ _

/-- The order by hue holds the named colors with any alpha. -/
theorem mem_byHue [Scalar α] [ColorModel α] (palette : Palette α) (entry : String × Color α) :
    entry ∈ palette.byHue ↔ entry ∈ palette.entries ∧ (0.0 : α) < entry.2.alpha := by
  rw [byHue, (sortBy_perm _ _).mem_iff, List.mem_filter, decide_eq_true_eq]

/-- There are no candidates exactly if no named color has any alpha. -/
theorem candidates_eq_nil_iff [Scalar α] [ColorModel α] (palette : Palette α) :
    palette.candidates = [] ↔ ¬ ∃ entry ∈ palette.entries, (0.0 : α) < entry.2.alpha := by
  rw [candidates, List.map_eq_nil_iff, List.eq_nil_iff_forall_not_mem]
  simp only [mem_byHue, not_exists, not_and]

/-- Further named colors only add to the candidates. -/
theorem candidates_subset [Scalar α] [ColorModel α] {palette larger : Palette α}
    (h : palette.entries ⊆ larger.entries) : palette.candidates ⊆ larger.candidates := by
  refine List.map_subset _ fun entry hentry => ?_
  rw [mem_byHue] at hentry ⊢
  exact ⟨h hentry.1, hentry.2⟩

/-- The number of candidates is that of the named colors with any alpha. -/
theorem length_candidates [Scalar α] [ColorModel α] (palette : Palette α) :
    palette.candidates.length =
      palette.entries.countP fun entry => decide ((0.0 : α) < entry.2.alpha) := by
  rw [candidates, List.length_map, byHue, (sortBy_perm _ _).length_eq,
    List.countP_eq_length_filter]

/-- Of the standard colors all but the transparent one are candidates. -/
theorem length_candidates_standard : (standard : Palette Float).candidates.length = 52 := by
  rw [length_candidates]
  decide +kernel

end ColorWords.Palette
