import ColorWords.Adjective

/-!
# Phrases

Each axis has nine tiers around a neutral one. A phrase names the adjectives that lead to a
pair of tiers: an adjective of one of the four families that change both axes where its
effects belong to that pair, and otherwise one adjective per axis.

The change of lightness grows linearly with the distance from the neutral tier, the change of
saturation quadratically. Both are compared in exact hundredths.
-/

namespace ColorWords

namespace Phrase

/-- The number of tiers of an axis. -/
def tiers : Nat := 9

/-- The tier without any change. -/
def neutralTier : Nat := 4

/-- The change of lightness at a tier, in hundredths. -/
def lightness (tier : Nat) : Int := 15 * ((tier : Int) - neutralTier)

/-- The change of saturation at a tier, in hundredths. -/
def saturation (tier : Nat) : Int :=
  let offset := (tier : Int) - neutralTier
  offset * (offset.natAbs + 3) * 5 / 2

/-- The tier with the change nearest to the given one, the lowest of several. -/
def nearestTier (change : Nat → Int) (wanted : Int) : Nat :=
  (List.range tiers).foldl
    (fun best tier =>
      if (change tier - wanted).natAbs < (change best - wanted).natAbs then tier else best) 0

/-- The saturation and lightness tiers that an adjective belongs to. -/
def placement (adjective : Adjective) : Nat × Nat :=
  (nearestTier saturation adjective.saturation, nearestTier lightness adjective.lightness)

/-- The adjective of one axis at a tier, given the families that increase and decrease. -/
def axisAdjective? (up down : Family) (tier : Nat) : Option Adjective :=
  if tier = neutralTier then none
  else if tier < neutralTier then some ⟨down, .ofNumber (neutralTier - tier)⟩
  else some ⟨up, .ofNumber (tier - neutralTier)⟩

/-- The adjectives that change both axes. -/
def correlated : List Adjective :=
  [Family.bright, Family.pale, Family.deep, Family.weak].flatMap fun family =>
    (List.finRange 4).map fun tier => ⟨family, tier⟩

/-- The adjectives for a pair of tiers, which are none outside the table. -/
def adjectives (saturationTier lightnessTier : Nat) : List Adjective :=
  if tiers ≤ saturationTier ∨ tiers ≤ lightnessTier then []
  else
    match correlated.reverse.find? fun a => placement a == (saturationTier, lightnessTier) with
    | some adjective => [adjective]
    | none =>
      (axisAdjective? .light .dark lightnessTier).toList ++
        (axisAdjective? .rich .dull saturationTier).toList

/-- The words for a pair of tiers, each followed by a space. -/
def text (saturationTier lightnessTier : Nat) : String :=
  String.join ((adjectives saturationTier lightnessTier).map fun a => a.word ++ " ")

end Phrase

end ColorWords
