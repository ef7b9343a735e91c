import ColorWords.Color
import ColorWords.Phrase

/-!
# Intensities

An intensity combines a saturation tier with a lightness tier. Applied to a color it first
lightens or darkens and then enriches or dullens. An enriched color is mapped into the gamut
and a dullened one is not.
-/

namespace ColorWords

open Scalar

/-- A pair of tiers, numbered with the lightness tier varying fastest. -/
structure Intensity where
  code : Fin (Phrase.tiers * Phrase.tiers)
deriving DecidableEq

namespace Intensity

/-- The number of intensities. -/
def count : Nat := Phrase.tiers * Phrase.tiers

/-- The intensity with a code. -/
def ofCode? (code : Nat) : Option Intensity := if h : code < count then some ⟨⟨code, h⟩⟩ else none

/-- The intensity with the given tiers. -/
def ofTiers? (saturation lightness : Nat) : Option Intensity :=
  if saturation < Phrase.tiers ∧ lightness < Phrase.tiers then
    ofCode? (saturation * Phrase.tiers + lightness)
  else none

/-- The intensity that changes nothing. -/
def neutral : Intensity :=
  ⟨⟨Phrase.neutralTier * Phrase.tiers + Phrase.neutralTier, by decide⟩⟩

/-- The saturation tier. -/
def saturationTier (intensity : Intensity) : Nat := intensity.code / Phrase.tiers

/-- The lightness tier. -/
def lightnessTier (intensity : Intensity) : Nat := intensity.code % Phrase.tiers

/-- The words for the intensity, each followed by a space. -/
def phrase (intensity : Intensity) : String :=
  Phrase.text intensity.saturationTier intensity.lightnessTier

variable {α : Type} [Scalar α]

/-- The change of lightness at a tier, computed in scalars. -/
def lightnessAt (tier : Nat) : α :=
  (ofNat (min tier (Phrase.tiers - 1)) - ofNat Phrase.neutralTier) * 0.15

/-- The change of saturation at a tier, computed in scalars. -/
def saturationAt (tier : Nat) : α :=
  let tier := min tier (Phrase.tiers - 1)
  let distance : α := ofNat ((tier : Int) - Phrase.neutralTier).natAbs
  let change := distance * (distance + 3.0) * 0.025
  if tier < Phrase.neutralTier then -change else change

/-- The change of lightness. -/
def lightness (intensity : Intensity) : α := lightnessAt intensity.lightnessTier

/-- The change of saturation. -/
def saturation (intensity : Intensity) : α := saturationAt intensity.saturationTier

variable [GamutMap α]

/-- Apply the intensity to a color. -/
def apply (intensity : Intensity) (c : Color α) : Color α :=
  let c := c.shiftLightness intensity.lightness
  let saturation : α := intensity.saturation
  if 0.0 < saturation then (c.enrich saturation).toGamut
  else if saturation < 0.0 then c.dullen (-saturation)
  else c

end Intensity

end ColorWords
