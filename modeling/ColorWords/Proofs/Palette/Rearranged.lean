import ColorWords.Proofs.Description.Reading
import ColorWords.Proofs.Palette.Sorted
import ColorWords.Scalar.Binary64Text

/-!
# Palettes put together in another order

The orders of names of a palette are determined by what it lists: each holds the named colors,
ascending and without ties. So palettes that list the same colors and aliases in different orders
have the same orders of names. They agree in lookups as well, and hence on the reading of every
description and in every search.
-/

namespace ColorWords

open Description Scalar

variable {α : Type}

namespace Palette

variable [Scalar α] [Std.TransCmp (totalCompare : α → α → Ordering)]

/-- Lightness orders colors. -/
instance instTransCmpLightness :
    Std.TransCmp fun c d : Color α => totalCompare c.lab.lightness d.lab.lightness :=
  transCmp_comap totalCompare fun c : Color α => c.lab.lightness

/-- Hue orders colors. -/
instance instTransCmpHueRank [ColorModel α] :
    Std.TransCmp fun c d : Color α => c.hueRank.order d.hueRank :=
  transCmp_comap HueRank.order Color.hueRank

/-- Colors need not be told apart. -/
instance instTransCmpEq : Std.TransCmp fun _ _ : Color α => Ordering.eq where
  eq_swap := rfl
  isLE_trans _ _ := rfl

omit [Scalar α] [Std.TransCmp (totalCompare : α → α → Ordering)] in
/-- The alphabetical order is that of the bytes of names. -/
theorem pairwise_alphabetical (palette : Palette α) :
    palette.alphabetical.Pairwise fun x y => Text.bytes x.1 < Text.bytes y.1 :=
  (pairwise_comesBefore_sortBy _ (fun _ => palette.isWord_of_mem_entries)
    palette.nodup_names).imp fun h => by simpa [ComesBefore] using h

/-- The order by lightness ascends. -/
theorem pairwise_byLightness (palette : Palette α) :
    palette.byLightness.Pairwise
      (ComesBefore fun c d => totalCompare c.lab.lightness d.lab.lightness) :=
  pairwise_comesBefore_sortBy _ (fun _ => palette.isWord_of_mem_entries) palette.nodup_names

/-- The order by hue has grays in front and ascends. -/
theorem pairwise_byHue [ColorModel α] (palette : Palette α) :
    palette.byHue.Pairwise ComesBeforeByHue := by
  have hsorted : palette.byHue.Pairwise (ComesBefore fun c d => c.hueRank.order d.hueRank) :=
    pairwise_comesBefore_sortBy _
      (fun _ h => palette.isWord_of_mem_entries (List.mem_of_mem_filter h))
      (palette.nodup_names.sublist (List.filter_sublist.map _))
  exact hsorted.imp comesBeforeByHue_of_hueRank

/-! ## Two palettes -/

/-- Two palettes have the same orders of names, know the same names, read descriptions alike,
remarks included, and find the same descriptions. -/
structure SameAnswers [ColorModel α] [GamutMap α] [Numeral α] (x y : Palette α) : Prop where
  alphabetical : x.alphabetical = y.alphabetical
  byLightness : x.byLightness = y.byLightness
  byHue : x.byHue = y.byHue
  get? : ∀ name, x.get? name = y.get? name
  ofText : ∀ text, Reading.ofText x text = Reading.ofText y text
  colorOf : ∀ text, x.colorOf text = y.colorOf text
  search? : ∀ target length, x.search? target length = y.search? target length
  describe : ∀ target length, x.describe target length = y.describe target length

variable [ColorModel α] [GamutMap α] [Numeral α]

/-- Palettes that list the same colors and aliases in any order answer alike. -/
theorem sameAnswers_of_perm {x y : Palette α} (hentries : x.entries.Perm y.entries)
    (haliases : x.aliases.Perm y.aliases) : SameAnswers x y := by
  have hget := get?_eq_of_perm hentries haliases
  have htext := Reading.ofText_congr hget
  have hhue : x.byHue = y.byHue :=
    sortBy_eq_of_perm _ (x.nodup_names.sublist (List.filter_sublist.map _)) (hentries.filter _)
  have hsearch (target : Color α) (length : ℕ) :
      x.search? target length = y.search? target length := by
    unfold Palette.search? candidates
    rw [hhue]
  exact {
    alphabetical := sortBy_eq_of_perm _ x.nodup_names hentries
    byLightness := sortBy_eq_of_perm _ x.nodup_names hentries
    byHue := hhue
    get? := hget
    ofText := htext
    colorOf := fun text => by rw [Palette.colorOf, htext]; rfl
    search? := hsearch
    describe := fun target length => by
      unfold Palette.describe candidateNames
      rw [hsearch, hhue] }

end Palette

namespace Draft

open Palette

/-- Soundness does not depend on the order of what is listed. -/
theorem IsSound.of_perm {x y : Draft α} (h : x.IsSound) (hentries : x.entries.Perm y.entries)
    (haliases : x.aliases.Perm y.aliases) : y.IsSound := by
  have hnames : x.names.Perm y.names := hentries.map Prod.fst
  have hall : x.allNames.Perm y.allNames := hnames.append (haliases.map Prod.fst)
  refine ⟨⟨fun name hname => h.names.1 name (hall.mem_iff.mpr hname),
    hall.nodup_iff.mp h.names.2⟩, fun pair hpair => ?_⟩
  exact hnames.mem_iff.mp (h.targets pair (haliases.mem_iff.mpr hpair))

variable [Scalar α] [Std.TransCmp (totalCompare : α → α → Ordering)] [ColorModel α] [GamutMap α]
  [Numeral α]

/-- A palette that builds has its named colors in three orders without ties. The alphabetical one
is strictly ascending in the bytes of names, the one by lightness ascends with ties ascending by
name, and the one by hue holds exactly the colors with any alpha, grays first. No alias is in any
of them. The same additions in any other order build a palette that answers alike. -/
theorem orders_of_build {additions : List (Addition α)} {palette : Palette α}
    (hbuild : (ofAdditions additions).build = .ok palette) :
    let entries := additions.filterMap Addition.entry?
    let aliases := additions.filterMap Addition.synonym?
    (palette.alphabetical.Perm entries ∧
      palette.alphabetical.Pairwise fun x y => Text.bytes x.1 < Text.bytes y.1) ∧
    (palette.byLightness.Perm entries ∧
      palette.byLightness.Pairwise
        (ComesBefore fun c d => totalCompare c.lab.lightness d.lab.lightness)) ∧
    (palette.byHue.Perm (entries.filter fun entry => decide ((0.0 : α) < entry.2.alpha)) ∧
      palette.byHue.Pairwise ComesBeforeByHue) ∧
    (∀ pair ∈ aliases, ∀ sorted ∈ [palette.alphabetical, palette.byLightness, palette.byHue],
      pair.1 ∉ sorted.map Prod.fst) ∧
    ∀ rearranged, additions.Perm rearranged →
      ∃ other, (ofAdditions rearranged).build = .ok other ∧ SameAnswers palette other := by
  intro entries aliases
  have hdraft : palette.toDraft = ⟨entries, aliases⟩ :=
    ((build_eq_ok_iff _ palette).mp hbuild).trans (ofAdditions_eq additions)
  have hentries : palette.entries = entries := congrArg Draft.entries hdraft
  have haliases : palette.aliases = aliases := congrArg Draft.aliases hdraft
  rw [← hentries, ← haliases]
  refine ⟨⟨sortBy_perm _ _, palette.pairwise_alphabetical⟩,
    ⟨sortBy_perm _ _, palette.pairwise_byLightness⟩,
    ⟨sortBy_perm _ _, palette.pairwise_byHue⟩, ?_, ?_⟩
  · intro pair hpair sorted hsorted hname
    obtain ⟨entry, hentry, hname⟩ := List.mem_map.mp hname
    have hlisted : entry ∈ palette.entries := by
      simp only [List.mem_cons, List.not_mem_nil, or_false] at hsorted
      rcases hsorted with rfl | rfl | rfl
      · exact (sortBy_perm _ _).mem_iff.mp hentry
      · exact (sortBy_perm _ _).mem_iff.mp hentry
      · exact ((mem_byHue palette entry).mp hentry).1
    exact palette.fst_ne_of_mem_aliases hpair hlisted hname
  · intro rearranged hperm
    have hsameEntries : palette.entries.Perm (ofAdditions rearranged).entries := by
      rw [hentries, ofAdditions_eq]
      exact hperm.filterMap _
    have hsameAliases : palette.aliases.Perm (ofAdditions rearranged).aliases := by
      rw [haliases, ofAdditions_eq]
      exact hperm.filterMap _
    obtain ⟨other, hother⟩ := (exists_build_eq_ok_iff _).mpr
      (palette.isSound.of_perm hsameEntries hsameAliases)
    have hotherDraft : other.toDraft = ofAdditions rearranged := (build_eq_ok_iff _ other).mp hother
    rw [← hotherDraft] at hsameEntries hsameAliases
    exact ⟨other, hother, sameAnswers_of_perm hsameEntries hsameAliases⟩

/-- Two grays, a red, a transparent color and an alias build alike from the front and from the
back. -/
theorem orders_of_build_both_ways :
    let additions : List (Addition Float) :=
      [.entry "paper" (.solid ⟨0.95, 0.0, 0.0⟩), .entry "ink" (.solid ⟨0.2, 0.0, 0.0⟩),
        .entry "rust" (.solid ⟨0.5, 0.1, 0.1⟩), .synonym "page" "paper",
        .entry "glass" Color.neutral]
    ∃ palette, (ofAdditions additions).build = .ok palette ∧
      palette.alphabetical.Pairwise (fun x y => Text.bytes x.1 < Text.bytes y.1) ∧
      palette.byHue.Pairwise ComesBeforeByHue ∧
      ∃ other, (ofAdditions additions.reverse).build = .ok other ∧ SameAnswers palette other := by
  intro additions
  have hvalid : (ofAdditions additions).error? = none := by decide
  have hbuild : (ofAdditions additions).build = .ok ⟨ofAdditions additions, hvalid⟩ :=
    (build_eq_ok_iff _ _).mpr rfl
  obtain ⟨halphabetical, -, hhue, -, hrearranged⟩ := orders_of_build hbuild
  exact ⟨_, hbuild, halphabetical.2, hhue.2, hrearranged _ additions.reverse_perm.symm⟩

end Draft

end ColorWords
