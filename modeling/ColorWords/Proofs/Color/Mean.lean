import ColorWords.Color
import ColorWords.Proofs.Scalar.Exact

/-!
# Mixes in exact arithmetic

A blend keeps four independent sums, one for each channel. In exact arithmetic a mix therefore
has the plain mean of each channel, and neither the order of colors matters nor whether all of them
are repeated.
-/

namespace ColorWords.Color

open Scalar

/-- Colors are added to the four sums of a blend channel by channel. -/
theorem Blend.foldl_add {α : Type} [Scalar α] (colors : List (Color α)) (blend : Blend α) :
    colors.foldl Blend.add blend =
      ⟨(colors.map fun c => c.lab.lightness).foldl .add blend.lightness,
        (colors.map fun c => c.lab.a).foldl .add blend.a,
        (colors.map fun c => c.lab.b).foldl .add blend.b,
        (colors.map fun c => c.alpha).foldl .add blend.alpha, blend.count + colors.length⟩ := by
  induction colors generalizing blend with
  | nil => rfl
  | cons c rest ih =>
    rw [List.foldl_cons, ih, List.length_cons, Nat.add_comm rest.length, ← Nat.add_assoc]
    rfl

variable {K : Type} [Field K] [LinearOrder K] [IsStrictOrderedRing K]

/-- A mix of some colors has the mean of each channel. -/
theorem mix_eq_mean {colors : List (Color K)} (h : colors ≠ []) :
    mix colors =
      make
        ⟨(colors.map fun c => c.lab.lightness).sum / colors.length,
          (colors.map fun c => c.lab.a).sum / colors.length,
          (colors.map fun c => c.lab.b).sum / colors.length⟩
        ((colors.map fun c => c.alpha).sum / colors.length) := by
  have hcount : colors.length ≠ 0 := fun hzero => h (List.length_eq_zero_iff.mp hzero)
  have hsum (terms : List K) : (terms.foldl .add Accumulator.zero).total = terms.sum :=
    Accumulator.total_ofList terms
  simp only [mix, Blend.foldl_add, Blend.color, Blend.zero, Nat.zero_add, hcount, if_false, hsum,
    ofNat_eq_cast]

/-- The order of colors does not matter for their mix. -/
theorem mix_eq_of_perm {colors others : List (Color K)} (h : colors.Perm others) :
    mix colors = mix others := by
  rcases eq_or_ne colors [] with rfl | hne
  · rw [h.nil_eq]
  · have hothers : others ≠ [] := fun hnil => hne (h.trans (.of_eq hnil)).eq_nil
    rw [mix_eq_mean hne, mix_eq_mean hothers, h.length_eq, (h.map _).sum_eq, (h.map _).sum_eq,
      (h.map _).sum_eq, (h.map _).sum_eq]

/-- Repeating the whole list of colors does not change their mix. -/
theorem mix_flatten_replicate {k : ℕ} (hk : 1 ≤ k) (colors : List (Color K)) :
    mix (List.replicate k colors).flatten = mix colors := by
  rcases eq_or_ne colors [] with rfl | hne
  · rw [List.flatten_replicate_nil]
  · have hrepeated : (List.replicate k colors).flatten ≠ [] := by
      simp [List.flatten_eq_nil_iff, Nat.one_le_iff_ne_zero.mp hk, hne]
    have hscale : (k : K) ≠ 0 := Nat.cast_ne_zero.mpr (Nat.one_le_iff_ne_zero.mp hk)
    have hlength : ((List.replicate k colors).flatten.length : K) = k * colors.length := by
      rw [List.length_flatten, List.map_replicate, List.sum_replicate, smul_eq_mul, Nat.cast_mul]
    have hmean (channel : Color K → K) :
        ((List.replicate k colors).flatten.map channel).sum /
            (List.replicate k colors).flatten.length =
          (colors.map channel).sum / colors.length := by
      rw [hlength, List.map_flatten, List.map_replicate, List.sum_flatten, List.map_replicate,
        List.sum_replicate, nsmul_eq_mul, mul_div_mul_left _ _ hscale]
    rw [mix_eq_mean hrepeated, mix_eq_mean hne, hmean, hmean, hmean, hmean]

end ColorWords.Color
