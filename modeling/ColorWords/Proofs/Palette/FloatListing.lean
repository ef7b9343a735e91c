import ColorWords.Proofs.Color.FloatDigits
import ColorWords.Proofs.Color.Reachable
import ColorWords.Proofs.Palette.Listing

/-!
# Listings of float palettes

The listing of a palette shows the texts of its colors, so it keeps them with as many decimals as
these texts do, and it is read as a palette with the same names and aliases.
-/

namespace ColorWords.Palette

open Scalar Binary64

/-- The listing of a palette of normal colors with five to 308 decimals is read as a palette with
the same names and aliases, whose colors are close to those of the palette. -/
theorem exists_ofListing_listing {palette : Palette Float}
    (hnormal : ∀ entry ∈ palette.entries, entry.2.IsNormal) {places : ℕ} (h : 5 ≤ places)
    (hle : places ≤ 308) :
    ∃ parsed : Palette Float, ofListing (palette.listing places) = .ok parsed ∧
      parsed.aliases = palette.aliases ∧
      List.Forall₂ (fun entry entry' => entry.1 = entry'.1 ∧
        Color.Channelwise (IsClose (1 / 10 ^ 5)) entry.2 entry'.2)
        palette.entries parsed.entries := by
  obtain ⟨f, hfactor, hf⟩ := Color.exists_hasValue_factor h hle
  have hwrite : ∀ entry ∈ palette.entries, _ := fun entry hentry =>
    Color.read_write_of_factor (hnormal entry hentry) hfactor (by linarith : 1 ≤ f)
  obtain ⟨parsed, hread, hentries, haliases⟩ := exists_ofListing_of_read
    (fun entry hentry => (hwrite entry hentry).1) fun entry hentry => (hwrite entry hentry).2
  refine ⟨parsed, hread, haliases, ?_⟩
  rw [hentries, List.forall₂_map_right_iff, List.forall₂_same]
  exact fun entry hentry => ⟨rfl, Color.channelwise_isClose (hnormal entry hentry) hfactor hf⟩

/-- From five decimals on the text of every normal color keeps it up to 308 decimals and no further,
for the power of ten is infinite from there on. Up to there the listing of a palette of such colors
is read as a palette with the same names and aliases and with colors as close. -/
theorem keeps_colors_iff {places : ℕ} (h : 5 ≤ places) :
    (∀ c : Color Float, c.IsNormal →
      (Color.IsKept (1 / 10 ^ 5) (c.write places) c ↔ places ≤ 308)) ∧
    ∀ palette : Palette Float, (∀ entry ∈ palette.entries, entry.2.IsNormal) → places ≤ 308 →
      ∃ parsed : Palette Float, ofListing (palette.listing places) = .ok parsed ∧
        parsed.aliases = palette.aliases ∧
        List.Forall₂ (fun entry entry' => entry.1 = entry'.1 ∧
          Color.Channelwise (IsClose (1 / 10 ^ 5)) entry.2 entry'.2)
          palette.entries parsed.entries :=
  ⟨fun _ hc => Color.isKept_write_iff hc h,
    fun _ hnormal hle => exists_ofListing_listing hnormal h hle⟩

/-- The colors of the standard palette are kept with as many decimals as are possible. -/
theorem keeps_colors_iff_standard :
    (∀ entry ∈ (standard : Palette Float).entries,
      Color.IsKept (1 / 10 ^ 5) (entry.2.write 308) entry.2) ∧
    ∃ parsed : Palette Float, ofListing ((standard : Palette Float).listing 308) = .ok parsed ∧
      parsed.aliases = (standard : Palette Float).aliases := by
  have hnormal : ∀ entry ∈ (standard : Palette Float).entries, entry.2.IsNormal :=
    fun entry hentry => (isReachable_standard entry hentry).isNormal
  obtain ⟨hcolors, hlistings⟩ := keeps_colors_iff (by decide : 5 ≤ 308)
  obtain ⟨parsed, hread, haliases, -⟩ := hlistings standard hnormal le_rfl
  exact ⟨fun entry hentry => (hcolors entry.2 (hnormal entry hentry)).mpr le_rfl,
    parsed, hread, haliases⟩

/-- With one more decimal nothing is left of this color, which is read as black. -/
theorem write_too_many_digits :
    let c : Color Float := ⟨⟨0.78, -0.1, -0.1⟩, 1.0⟩
    c.IsNormal ∧ c.write 309 = "oklab(NaN NaN NaN)".toList ∧
      (Color.read (c.write 309)).toOption.map (fun parsed : Color Float => parsed.lab.lightness) =
        some 0.0 := by
  intro c
  refine ⟨?_, by decide +kernel, by decide +kernel⟩
  constructor <;> constructor <;> decide +kernel

end ColorWords.Palette
