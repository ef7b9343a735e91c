import ColorWords.Phrase
import ColorWords.Proofs.Text.Words
import Mathlib

/-!
# The phrase table

Every adjective is recognized from its own word, so a phrase reads as the adjectives that it is
made of. Their effects add up to the changes of the pair of tiers that the phrase stands for,
but for the three cells on which a bright adjective was placed as the nearest one.
-/

namespace ColorWords

open Description

/-- Every family is tried. -/
theorem Family.mem_all (family : Family) : family ∈ Family.all := by
  cases family <;> decide

namespace Adjective

/-- The word for an adjective consists of letters. -/
theorem isWord_word (adjective : Adjective) : IsWord adjective.word := by
  have hall : ∀ family ∈ Family.all, ∀ tier : Tier, IsWord (family.word tier) := by decide
  exact hall adjective.family (Family.mem_all _) adjective.tier

/-- The word for an adjective is recognized as that adjective. -/
theorem ofWord?_word (adjective : Adjective) : ofWord? adjective.word = some adjective := by
  have hall : ∀ family ∈ Family.all, ∀ tier : Tier,
      ofWord? (family.word tier) = some ⟨family, tier⟩ := by decide
  exact hall adjective.family (Family.mem_all _) adjective.tier

end Adjective

namespace Phrase

/-- A phrase has at most one adjective per axis. -/
theorem length_adjectives_le (saturationTier lightnessTier : ℕ) :
    (adjectives saturationTier lightnessTier).length ≤ 2 := by
  have haxis : ∀ up down tier, (axisAdjective? up down tier).toList.length ≤ 1 := fun _ _ _ => by
    cases axisAdjective? _ _ _ <;> simp
  unfold adjectives
  split
  · simp
  · split
    · simp
    · rw [List.length_append]
      exact Nat.add_le_add (haxis ..) (haxis ..)

/-- The words of a phrase are those of its adjectives. -/
theorem words_text_append (saturationTier lightnessTier : ℕ) (rest : String) :
    words (text saturationTier lightnessTier ++ rest) =
      (adjectives saturationTier lightnessTier).map Adjective.word ++ words rest := by
  have hwords : ∀ word ∈ (adjectives saturationTier lightnessTier).map Adjective.word,
      IsWord word := by
    intro word hword
    obtain ⟨adjective, -, rfl⟩ := List.mem_map.mp hword
    exact adjective.isWord_word
  rw [← words_join_append hwords, List.map_map]
  rfl

/-- The adjectives of a phrase change lightness as much as its lightness tier. -/
theorem sum_lightness_adjectives {saturationTier lightnessTier : ℕ} (hs : saturationTier < tiers)
    (hl : lightnessTier < tiers) :
    ((adjectives saturationTier lightnessTier).map Adjective.lightness).sum =
      lightness lightnessTier := by
  have hall : ∀ s ∈ List.range tiers, ∀ l ∈ List.range tiers,
      ((adjectives s l).map Adjective.lightness).sum = lightness l := by decide +kernel
  exact hall _ (List.mem_range.mpr hs) _ (List.mem_range.mpr hl)

/-- The adjectives of a phrase change saturation as much as its saturation tier, unless both
tiers are the same one from 6 on. There a bright adjective stands that is nearest only. -/
theorem sum_saturation_adjectives_iff {saturationTier lightnessTier : ℕ}
    (hs : saturationTier < tiers) (hl : lightnessTier < tiers) :
    ((adjectives saturationTier lightnessTier).map Adjective.saturation).sum =
        saturation saturationTier ↔
      ¬ (saturationTier = lightnessTier ∧ 6 ≤ saturationTier) := by
  have hall : ∀ s ∈ List.range tiers, ∀ l ∈ List.range tiers,
      (((adjectives s l).map Adjective.saturation).sum = saturation s ↔ ¬ (s = l ∧ 6 ≤ s)) := by
    decide +kernel
  exact hall _ (List.mem_range.mpr hs) _ (List.mem_range.mpr hl)

end Phrase

end ColorWords
