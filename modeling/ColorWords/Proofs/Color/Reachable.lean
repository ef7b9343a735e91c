import ColorWords.Palette.Standard
import ColorWords.Proofs.Color.Gamut
import ColorWords.Proofs.Palette.Build
import ColorWords.Proofs.Palette.Lines

/-!
# Reachable colors

The colors that operations of the library lead to, one after another and with any scalars: made
from channels or from sRGB, read, mixed, adjusted, mapped into the gamut, looked up in a palette,
or described. All of them are normal. No operation but those that set or average alpha changes it.

Nothing is assumed of the conversions, of gamut mapping or of the numbers in texts.
-/

namespace ColorWords

open Scalar

variable {α : Type} [Scalar α] [ColorModel α] [GamutMap α] [Numeral α]

/-- The color results from operations of the library. Palettes contribute colors that are named,
looked up or described once all of their own colors are such results. -/
inductive Color.Reachable : Color α → Prop where
  | make (lab : Lab α) (alpha : α) : Reachable (.make lab alpha)
  | solid (lab : Lab α) : Reachable (.solid lab)
  | ofRGB (c : RGB α) : Reachable (.ofRGB c)
  | ofBytes (c : RGB UInt8) : Reachable (.ofBytes c)
  | neutral : Reachable .neutral
  | read {text : List Char} {c : Color α} (hread : Color.read text = .ok c) : Reachable c
  | mix {colors : List (Color α)} (hcolors : ∀ c ∈ colors, Reachable c) : Reachable (.mix colors)
  | lighten {c : Color α} (hc : Reachable c) (amount : α) : Reachable (c.lighten amount)
  | darken {c : Color α} (hc : Reachable c) (amount : α) : Reachable (c.darken amount)
  | enrich {c : Color α} (hc : Reachable c) (amount : α) : Reachable (c.enrich amount)
  | dullen {c : Color α} (hc : Reachable c) (amount : α) : Reachable (c.dullen amount)
  | withAlpha {c : Color α} (hc : Reachable c) (alpha : α) : Reachable (c.withAlpha alpha)
  | toGamut {c : Color α} (hc : Reachable c) : Reachable c.toGamut
  | apply {c : Color α} (hc : Reachable c) (intensity : Intensity) : Reachable (intensity.apply c)
  | get {palette : Palette α} (hentries : ∀ entry ∈ palette.entries, Reachable entry.2)
      {name : String} {c : Color α} (hget : palette.get? name = some c) : Reachable c
  | lookup {palette : Palette α} (hentries : ∀ entry ∈ palette.entries, Reachable entry.2)
      (name : String) : Reachable (palette.lookup name)
  | colorOf {palette : Palette α} (hentries : ∀ entry ∈ palette.entries, Reachable entry.2)
      (text : String) : Reachable (palette.colorOf text)

/-- All colors of the palette are reachable. -/
def Palette.IsReachable (palette : Palette α) : Prop :=
  ∀ entry ∈ palette.entries, Color.Reachable entry.2

/-! ## Palettes -/

namespace Palette

/-- The standard palette is reachable. -/
theorem isReachable_standard : (standard : Palette α).IsReachable := by
  intro entry hentry
  rcases List.mem_append.mp hentry with hcolor | hneutral
  · obtain ⟨named, -, rfl⟩ := List.mem_map.mp hcolor
    exact .ofBytes _
  · rw [List.mem_singleton.mp hneutral]
    exact .neutral

/-- A palette built from reachable colors is reachable. -/
theorem isReachable_of_build {additions : List (Addition α)} {palette : Palette α}
    (hcolors : ∀ name color, .entry name color ∈ additions → Color.Reachable color)
    (h : (Draft.ofAdditions additions).build = .ok palette) : palette.IsReachable := by
  intro entry hentry
  rw [(Draft.build_eq_ok_iff _ _).mp h, Draft.ofAdditions_eq, List.mem_filterMap] at hentry
  obtain ⟨addition, hmem, hheld⟩ := hentry
  cases addition with
  | entry name color =>
    obtain rfl := Option.some.inj hheld
    exact hcolors _ _ hmem
  | synonym name target => cases hheld

omit [Scalar α] [ColorModel α] [GamutMap α] [Numeral α] in
/-- A color that stands for a name is the color of some named color. -/
theorem exists_mem_of_get? {palette : Palette α} {name : String} {c : Color α}
    (h : palette.get? name = some c) : ∃ entry ∈ palette.entries, entry.2 = c := by
  rcases (palette.get?_eq_some_iff name c).mp h with hentry | ⟨target, -, hentry⟩
  · exact ⟨_, hentry, rfl⟩
  · exact ⟨_, hentry, rfl⟩

omit [GamutMap α] in
/-- The colors of a listing are read. -/
theorem exists_read_of_ofListing {text : List Char} {palette : Palette α}
    (h : ofListing text = .ok palette) {entry : String × Color α}
    (hentry : entry ∈ palette.entries) : ∃ colorText, Color.read colorText = .ok entry.2 := by
  obtain ⟨helds, hholds, hdraft⟩ := holdDraft_of_ofListing h
  rw [← hdraft] at hentry
  obtain ⟨held, hheld, hentry⟩ := List.mem_filterMap.mp hentry
  obtain ⟨i, hi, rfl⟩ := List.getElem_of_mem hheld
  have hline := hholds.get (hholds.length_eq ▸ hi) hi
  rw [List.get_eq_getElem, List.get_eq_getElem] at hline
  generalize helds[i] = held at hline hentry
  cases hline with
  | blank => cases hentry
  | synonym => cases hentry
  | @entry name colorText gap c hline hname hgap htrim hread =>
    obtain rfl := Option.some.inj hentry
    exact ⟨colorText, hread⟩

/-- The palette of a listing is reachable. -/
theorem isReachable_of_ofListing {text : List Char} {palette : Palette α}
    (h : ofListing text = .ok palette) : palette.IsReachable := by
  intro entry hentry
  obtain ⟨colorText, hread⟩ := exists_read_of_ofListing h hentry
  exact .read hread

end Palette

/-! ## Channels -/

namespace Color

variable [OrderedScalar α]

omit [GamutMap α] in
/-- A color that has been read is normal. -/
theorem isNormal_of_read {text : List Char} {c : Color α} (h : read text = .ok c) :
    c.IsNormal := by
  unfold read at h
  split at h
  · next digits htrim =>
    cases hdigits : readHashed digits with
    | error cause => simp [hdigits, Except.map] at h
    | ok bytes =>
      rw [hdigits] at h
      obtain rfl := Except.ok.inj h
      exact isNormal_make _ _
  · unfold readFunctional at h
    split at h
    · simp only [bind_eq_ok_iff] at h
      obtain ⟨body, -, coordinates, -, u, -, hc⟩ := h
      obtain rfl := Except.ok.inj hc
      exact isNormal_make _ _
    · cases h

omit [ColorModel α] [Numeral α] in
/-- A described color is normal. -/
theorem isNormal_colorOf (palette : Palette α) (text : String) :
    (palette.colorOf text).IsNormal := by
  unfold Palette.colorOf Reading.color
  dsimp only
  split
  · exact isNormal_make _ _
  · split <;> exact isNormal_make _ _

/-- Reachable colors are normal. -/
theorem Reachable.isNormal {c : Color α} (h : c.Reachable) : c.IsNormal := by
  induction h with
  | make | solid | ofRGB | ofBytes => exact isNormal_make _ _
  | neutral => exact isNormal_neutral
  | read hread => exact isNormal_of_read hread
  | mix => exact isNormal_mix _
  | lighten | darken | enrich | dullen | withAlpha | toGamut => exact isNormal_make _ _
  | apply _ intensity ih => exact ih.apply intensity
  | get _ hget ih =>
    obtain ⟨entry, hentry, rfl⟩ := Palette.exists_mem_of_get? hget
    exact ih entry hentry
  | @lookup palette _ name ih =>
    rw [Palette.lookup]
    cases hget : palette.get? name with
    | none => exact isNormal_neutral
    | some c =>
      obtain ⟨entry, hentry, rfl⟩ := Palette.exists_mem_of_get? hget
      exact ih entry hentry
  | colorOf => exact isNormal_colorOf _ _

omit [ColorModel α] [GamutMap α] [Numeral α] in
/-- Changing the other channels of a normal color keeps alpha. -/
theorem IsNormal.alpha_make {c : Color α} (hc : c.IsNormal) (lab : Lab α) :
    (make lab c.alpha).alpha = c.alpha := unit_eq_self hc.alpha

omit [ColorModel α] [GamutMap α] [Numeral α] in
/-- Moving lightness keeps alpha. -/
theorem IsNormal.alpha_shiftLightness {c : Color α} (hc : c.IsNormal) (amount : α) :
    (c.shiftLightness amount).alpha = c.alpha := by
  unfold Color.shiftLightness
  split
  · exact hc.alpha_make _
  · split
    · exact hc.alpha_make _
    · rfl

omit [ColorModel α] [Numeral α] in
/-- Applying an intensity keeps alpha. -/
theorem IsNormal.alpha_apply {c : Color α} (hc : c.IsNormal) (intensity : Intensity) :
    (intensity.apply c).alpha = c.alpha := by
  have hshifted := hc.shiftLightness (intensity.lightness : α)
  rw [← hc.alpha_shiftLightness intensity.lightness]
  unfold Intensity.apply
  dsimp only
  split
  · -- Enriching keeps alpha, and so does mapping into the gamut.
    exact (isNormal_make _ _).alpha_make _ |>.trans (hshifted.alpha_make _)
  · split
    · exact hshifted.alpha_make _
    · rfl

end Color

end ColorWords
