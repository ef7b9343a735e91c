import ColorWords.Proofs.Color.FloatDistance
import ColorWords.Proofs.Color.Mean
import ColorWords.Proofs.Intensity
import ColorWords.Proofs.Scalar.Alike
import ColorWords.Proofs.Scalar.Real
import ColorWords.Proofs.Search.Optimal

/-!
# Exact and monotone searches

A search tries every selection of as many candidates as it mixes, with every intensity. If it looks
for the mix of a selection, it tries the selection itself with the neutral intensity, which leaves
all colors as they are, so what it finds has no distance at all.

If every mix that one search tries is tried by another one, the other search finds nothing farther.
It tries the same mixes if the palette has further entries. In exact arithmetic it also does if a
multiple of the number of colors is mixed, since a selection can be repeated as a whole.

All of this is about searches that do not fail, so it stops where a selection has no room for as
many colors.
-/

namespace ColorWords

open Scalar

/-! ## No distance -/

/-- An intensity without any change leaves all colors as they are. -/
theorem Intensity.apply_eq_self {α : Type} [Scalar α] [OrderedScalar α] [GamutMap α]
    {intensity : Intensity} (hlightness : IsZero (intensity.lightness : α))
    (hsaturation : IsZero (intensity.saturation : α)) (c : Color α) : intensity.apply c = c := by
  have hnone {x : α} (hx : IsZero x) : ¬ 0.0 < x ∧ ¬ x < 0.0 :=
    ⟨fun h => OrderedScalar.not_le_of_lt h hx.1, fun h => OrderedScalar.not_le_of_lt h hx.2⟩
  obtain ⟨hlight, hdark⟩ := hnone hlightness
  obtain ⟨hrich, hdull⟩ := hnone hsaturation
  have hshift : c.shiftLightness intensity.lightness = c := by
    rw [Color.shiftLightness, if_neg hlight, if_neg hdark]
  simp only [apply, hshift, if_neg hrich, if_neg hdull]

/-- Scores show exactly whether there is a distance. A normal color has none from itself, a squared
distance that is not above zero is the zero without a sign, and the neutral intensity stands for no
change. -/
class DefiniteScores (α : Type) [Scalar α] : Prop where
  neutral_lightness : IsZero (Intensity.neutral.lightness : α)
  neutral_saturation : IsZero (Intensity.neutral.saturation : α)
  distanceSquared_self_le {c : Color α} (hc : c.IsNormal) : c.distanceSquared c ≤ 0.0
  distanceSquared_eq_zero {c d : Color α} (hc : c.IsNormal) (hd : d.IsNormal)
    (hle : c.distanceSquared d ≤ 0.0) : c.distanceSquared d = 0.0

/-- In a field squares are not negative, and there is only one zero. -/
instance DefiniteScores.instOfField {K : Type} [Field K] [LinearOrder K] [IsStrictOrderedRing K] :
    DefiniteScores K where
  neutral_lightness := by
    rw [isZero_iff_eq_zero, Intensity.lightness_eq_div,
      show Phrase.lightness Intensity.neutral.lightnessTier = 0 by decide, Int.cast_zero, zero_div]
  neutral_saturation := by
    rw [isZero_iff_eq_zero, Intensity.saturation_eq_div,
      show Phrase.saturation Intensity.neutral.saturationTier = 0 by decide, Int.cast_zero,
      zero_div]
  distanceSquared_self_le _ := by norm_num [Color.distanceSquared, Lab.distanceSquared]
  distanceSquared_eq_zero {c d} _ _ hle := by
    have hzero : (0.0 : K) = 0 := by norm_num
    rw [hzero] at hle ⊢
    exact le_antisymm hle (c.distanceSquared_nonneg d)

/-- No square of a float is the negative zero. -/
instance DefiniteScores.instFloat : DefiniteScores Float where
  neutral_lightness := ⟨by decide +kernel, by decide +kernel⟩
  neutral_saturation := ⟨by decide +kernel, by decide +kernel⟩
  distanceSquared_self_le hc := hc.distanceSquared_self_le
  distanceSquared_eq_zero hc hd := hc.distanceSquared_eq_zero hd

/-! ## Selections -/

namespace Search

variable {α : Type} [Scalar α]

/-- The squared distance between the target and an intensity applied to a mix of colors. -/
def mixScore [GamutMap α] (target : Color α) (intensity : Intensity) (colors : List (Color α)) :
    α :=
  (intensity.apply (Color.mix colors)).distanceSquared target

/-- Candidates are those of some tuple. -/
theorem exists_colorsAt {candidates colors : List (Color α)} (h : colors ⊆ candidates) :
    ∃ indices, IsTuple candidates.length colors.length indices ∧
      colorsAt candidates indices = colors := by
  induction colors with
  | nil => exact ⟨[], ⟨rfl, by simp⟩, rfl⟩
  | cons c rest ih =>
    obtain ⟨hc, hrest⟩ := List.cons_subset.mp h
    obtain ⟨i, hi, hget⟩ := List.getElem_of_mem hc
    obtain ⟨indices, ⟨hlength, hlt⟩, hcolors⟩ := ih hrest
    refine ⟨i :: indices, ⟨congrArg Nat.succ hlength, List.forall_mem_cons.mpr ⟨hi, hlt⟩⟩, ?_⟩
    rw [← hcolors, colorsAt, List.map_cons, List.getD_eq_getElem _ _ hi, hget, colorsAt]

/-- Those of a tuple are candidates. -/
theorem colorsAt_subset {candidates : List (Color α)} {length : ℕ} {indices : List ℕ}
    (h : IsTuple candidates.length length indices) : colorsAt candidates indices ⊆ candidates := by
  intro c hc
  obtain ⟨i, hi, rfl⟩ := List.mem_map.mp hc
  rw [List.getD_eq_getElem _ _ (h.2 i hi)]
  exact List.getElem_mem _

end Search

namespace Palette

open Search

section Selections

variable {α : Type} [Scalar α] [ColorModel α]

/-- The colors are candidates, as many as a search mixes. -/
structure IsSelection (palette : Palette α) (length : ℕ) (colors : List (Color α)) : Prop where
  length_eq : colors.length = max length 1
  subset : colors ⊆ palette.candidates

/-- As at least one color is mixed, there is one to select. -/
theorem IsSelection.candidates_ne_nil {palette : Palette α} {length : ℕ} {colors : List (Color α)}
    (h : palette.IsSelection length colors) : palette.candidates ≠ [] := by
  have hpos : 0 < colors.length := h.length_eq ▸ lt_max_of_lt_right Nat.one_pos
  exact List.ne_nil_of_mem (h.subset (List.getElem_mem hpos))

/-- Repeating a selection as a whole makes one of a multiple of the length. -/
theorem IsSelection.flatten_replicate {palette : Palette α} {length k : ℕ} {colors : List (Color α)}
    (hlength : length ≠ 0) (hk : 1 ≤ k) (h : palette.IsSelection length colors) :
    palette.IsSelection (k * length) (List.replicate k colors).flatten := by
  have hcount : colors.length = length := by
    rw [h.length_eq, max_eq_left (Nat.one_le_iff_ne_zero.mpr hlength)]
  constructor
  · rw [List.length_flatten, List.map_replicate, List.sum_replicate, smul_eq_mul, hcount,
      max_eq_left (Nat.mul_pos hk (Nat.pos_of_ne_zero hlength))]
  · intro c hc
    obtain ⟨copy, hcopy, hmem⟩ := List.mem_flatten.mp hc
    exact h.subset (List.eq_of_mem_replicate hcopy ▸ hmem)

variable [GamutMap α]

/-- A search for the mix of any candidates finds no distance, as long as all of their tuples can be
numbered and a selection has room for one. -/
def FindsMixes (palette : Palette α) : Prop :=
  ∀ colors : List (Color α), colors ≠ [] → colors ⊆ palette.candidates →
    palette.Fits colors.length →
    ∃ found, palette.search? (Color.mix colors) colors.length = .ok (some found) ∧
      found.distance = 0.0

/-- A search for any color fails if there are candidates and a selection has no room for as many as
are mixed. -/
def FailsBeyondRoom (palette : Palette α) : Prop :=
  ∀ (target : Color α) (length : ℕ), palette.candidates ≠ [] → maxSelection < length →
    palette.search? target length = .error .selectionTooLong

/-- Whatever normal color is searched for with the given number of colors, something is found, and
the other search with its own number of colors finds nothing farther. -/
def IsMatchedBy (palette : Palette α) (length : ℕ) (other : Palette α) (otherLength : ℕ) : Prop :=
  ∀ target : Color α, target.IsNormal →
    ∃ found better, palette.search? target length = .ok (some found) ∧
      other.search? target otherLength = .ok (some better) ∧ better.distance ≤ found.distance

variable [OrderedScalar α] [BoundedScores α] {palette : Palette α} {target : Color α} {length : ℕ}

/-- What a search finds is the score of a selection. -/
theorem exists_search? (hcandidates : palette.candidates ≠ []) (htarget : target.IsNormal)
    (hlength : length ≤ maxSelection) :
    ∃ found colors, palette.search? target length = .ok (some found) ∧
      palette.IsSelection length colors ∧
      found.distance = mixScore target found.intensity colors := by
  obtain ⟨found, hfound, htuple, hdistance, -⟩ := best?_spec hcandidates htarget (max length 1)
  refine ⟨found, colorsAt palette.candidates found.indices,
    by rw [search?_of_ne_nil hcandidates hlength, hfound], ⟨?_, colorsAt_subset htuple⟩, hdistance⟩
  rw [colorsAt, List.length_map, htuple.1]

/-- No selection has a score below what a search finds, if all tuples can be numbered. -/
theorem distance_le_mixScore (htarget : target.IsNormal) (hfit : palette.Fits (max length 1))
    {found : Match α} (hfound : palette.search? target length = .ok (some found))
    {colors : List (Color α)} (hcolors : palette.IsSelection length colors)
    (intensity : Intensity) : found.distance ≤ mixScore target intensity colors := by
  have hcandidates := hcolors.candidates_ne_nil
  have hlength := (le_max_left _ _).trans (hfit.le_maxSelection hcandidates)
  obtain ⟨best, hbest, -, -, hleast⟩ := best?_spec hcandidates htarget (max length 1)
  rw [search?_of_ne_nil hcandidates hlength, hbest] at hfound
  cases hfound
  obtain ⟨indices, htuple, rfl⟩ := exists_colorsAt hcolors.subset
  rw [hcolors.length_eq] at htuple
  exact (hleast intensity indices htuple (ofDigits_lt_tupleCount htuple hfit.tuples)).1

/-! ## Exactness -/

/-- A search for a mix tries it with the neutral intensity. -/
theorem findsMixes [DefiniteScores α] (palette : Palette α) : palette.FindsMixes := by
  intro colors hne hsubset hfit
  have hlength : max colors.length 1 = colors.length :=
    max_eq_left (List.length_pos_iff.mpr hne)
  have hcolors : palette.IsSelection colors.length colors := ⟨hlength.symm, hsubset⟩
  have htarget : (Color.mix colors).IsNormal := Color.isNormal_mix colors
  obtain ⟨found, chosen, hfound, -, hdistance⟩ :=
    exists_search? hcolors.candidates_ne_nil htarget
      (hfit.le_maxSelection hcolors.candidates_ne_nil)
  refine ⟨found, hfound, ?_⟩
  have hle : found.distance ≤ 0.0 := by
    have hneutral := distance_le_mixScore htarget (hlength.symm ▸ hfit) hfound hcolors .neutral
    rw [mixScore, Intensity.apply_eq_self DefiniteScores.neutral_lightness
      DefiniteScores.neutral_saturation] at hneutral
    exact OrderedScalar.le_trans hneutral (DefiniteScores.distanceSquared_self_le htarget)
  rw [hdistance] at hle ⊢
  exact DefiniteScores.distanceSquared_eq_zero ((Color.isNormal_mix chosen).apply _) htarget hle

/-! ## Monotonicity -/

/-- A search that tries all mixes which another one tries finds nothing farther. -/
theorem isMatchedBy_of_mixes {other : Palette α} {otherLength : ℕ}
    (hcandidates : palette.candidates ≠ []) (hlength : length ≤ maxSelection)
    (hfit : other.Fits (max otherLength 1))
    (hmixes : ∀ colors, palette.IsSelection length colors →
      ∃ others, other.IsSelection otherLength others ∧ Color.mix others = Color.mix colors) :
    palette.IsMatchedBy length other otherLength := by
  intro target htarget
  obtain ⟨found, colors, hfound, hcolors, hdistance⟩ := exists_search? hcandidates htarget hlength
  obtain ⟨others, hothers, hmix⟩ := hmixes colors hcolors
  have hroom := (le_max_left _ _).trans (hfit.le_maxSelection hothers.candidates_ne_nil)
  obtain ⟨better, -, hbetter, -⟩ := exists_search? hothers.candidates_ne_nil htarget hroom
  refine ⟨found, better, hfound, hbetter, ?_⟩
  have hsame : found.distance = mixScore target found.intensity others := by
    rw [hdistance, mixScore, mixScore, hmix]
  rw [hsame]
  exact distance_le_mixScore htarget hfit hbetter hothers found.intensity

/-- A palette with further entries has all selections of the smaller one. -/
theorem isMatchedBy_of_subset {larger : Palette α} (hcandidates : palette.candidates ≠ [])
    (hentries : palette.entries ⊆ larger.entries) (hfit : larger.Fits (max length 1)) :
    palette.IsMatchedBy length larger length := by
  have hsubset := candidates_subset hentries
  have hlarger : larger.candidates ≠ [] := fun hnil =>
    hcandidates (List.subset_nil.mp (hnil ▸ hsubset))
  have hlength := (le_max_left _ _).trans (hfit.le_maxSelection hlarger)
  exact isMatchedBy_of_mixes hcandidates hlength hfit fun colors hcolors =>
    ⟨colors, ⟨hcolors.length_eq, List.Subset.trans hcolors.subset hsubset⟩, rfl⟩

end Selections

section Exact

variable {K : Type} [Field K] [LinearOrder K] [IsStrictOrderedRing K] [ColorModel K]
  {palette : Palette K} {length k : ℕ}

/-- In exact arithmetic mixing a multiple of the number of colors finds nothing farther. -/
theorem isMatchedBy_mul [GamutMap K] (hcandidates : palette.candidates ≠ []) (hk : 1 ≤ k)
    (hfit : palette.Fits (k * length)) : palette.IsMatchedBy length palette (k * length) := by
  have hroom := (Nat.le_mul_of_pos_left length hk).trans (hfit.le_maxSelection hcandidates)
  rcases eq_or_ne length 0 with rfl | hlength
  · intro target htarget
    obtain ⟨found, -, hfound, -⟩ := exists_search? hcandidates htarget hroom
    exact ⟨found, found, hfound, hfound, le_rfl⟩
  · have hpos : 1 ≤ k * length := Nat.mul_pos hk (Nat.pos_of_ne_zero hlength)
    rw [← max_eq_left hpos] at hfit
    exact isMatchedBy_of_mixes hcandidates hroom hfit fun colors hcolors =>
      ⟨_, hcolors.flatten_replicate hlength hk, Color.mix_flatten_replicate hk colors⟩

end Exact

/-- As long as all tuples can be numbered and a selection has room for one, a search for a mix of
candidates finds no distance, in floats as well as in exact arithmetic. In exact arithmetic it finds
nothing farther if a multiple of the number of colors is mixed, and in both it finds nothing farther
if the palette has further entries. Beyond the room of a selection all searches among candidates
fail. -/
theorem search?_exact_and_monotone [ColorModel Float] [GamutMap Float] {K : Type} [Field K]
    [LinearOrder K] [IsStrictOrderedRing K] [ColorModel K] [GamutMap K] :
    (∀ palette : Palette Float, palette.FindsMixes) ∧
    (∀ palette : Palette K, palette.FindsMixes) ∧
    (∀ (palette : Palette K) (length k : ℕ), palette.candidates ≠ [] → 1 ≤ k →
      palette.Fits (k * length) → palette.IsMatchedBy length palette (k * length)) ∧
    (∀ (palette larger : Palette K) (length : ℕ), palette.candidates ≠ [] →
      palette.entries ⊆ larger.entries → larger.Fits (max length 1) →
      palette.IsMatchedBy length larger length) ∧
    (∀ (palette larger : Palette Float) (length : ℕ), palette.candidates ≠ [] →
      palette.entries ⊆ larger.entries → larger.Fits (max length 1) →
      palette.IsMatchedBy length larger length) ∧
    (∀ palette : Palette Float, palette.FailsBeyondRoom) ∧
    ∀ palette : Palette K, palette.FailsBeyondRoom :=
  ⟨findsMixes, findsMixes, fun _ _ _ => isMatchedBy_mul, fun _ _ _ => isMatchedBy_of_subset,
    fun _ _ _ => isMatchedBy_of_subset, fun _ target _ hcandidates hlength =>
      search?_of_lt hcandidates hlength target, fun _ target _ hcandidates hlength =>
      search?_of_lt hcandidates hlength target⟩

/-- The mix of black and charcoal is found without any distance. Over the reals two standard colors
come at least as near to any target as one does, and one of them at least as near as black. -/
theorem search?_exact_and_monotone_standard :
    let palette : Palette Float := standard
    let exact : Palette ℝ := standard
    let black : Palette ℝ := ⟨⟨[("black", Color.ofBytes ⟨0, 0, 0⟩)], []⟩, by decide⟩
    (∃ found, palette.search?
        (Color.mix [Color.ofBytes ⟨0, 0, 0⟩, Color.ofBytes ⟨0x33, 0x33, 0x33⟩]) 2 =
          .ok (some found) ∧
      found.distance = 0.0) ∧
    exact.IsMatchedBy 1 exact (2 * 1) ∧ black.IsMatchedBy 1 exact 1 := by
  intro palette exact black
  have hfew : exact.candidates.length ≤ 53 := by
    rw [length_candidates]
    exact List.countP_le_length
  have hfits {length : ℕ} (hlength : 53 ^ length ≤ maxTuples) (hroom : length ≤ maxSelection) :
      exact.Fits length :=
    ⟨(Nat.pow_le_pow_left hfew _).trans hlength, fun _ => hroom⟩
  have halpha : (0.0 : ℝ) < (Color.ofBytes ⟨0, 0, 0⟩ : Color ℝ).alpha := by
    norm_num [Color.ofBytes, Color.ofRGB, Color.solid, Color.make, unit, clamp, numberOrZero]
  have hblack : black.candidates ≠ [] := by
    rw [Ne, candidates_eq_nil_iff, not_not]
    exact ⟨_, List.mem_cons_self, halpha⟩
  have hentries : black.entries ⊆ exact.entries :=
    List.cons_subset.mpr ⟨List.mem_cons_self, List.nil_subset _⟩
  have hexact : exact.candidates ≠ [] := fun hnil =>
    hblack (List.subset_nil.mp (hnil ▸ candidates_subset hentries))
  obtain ⟨hmixes, -, hmultiple, hlarger, -⟩ := search?_exact_and_monotone (K := ℝ)
  refine ⟨hmixes palette _ (List.cons_ne_nil _ _) ?_ ⟨?_, fun _ => by decide⟩,
    hmultiple exact 1 2 hexact (by decide) (hfits (by decide) (by decide)),
    hlarger black exact 1 hblack hentries (hfits (by decide) (by decide))⟩
  · have hmem (entry : String × Color Float) (hentry : entry ∈ palette.entries)
        (hvisible : (0.0 : Float) < entry.2.alpha) : entry.2 ∈ palette.candidates :=
      List.mem_map_of_mem ((palette.mem_byHue entry).mpr ⟨hentry, hvisible⟩)
    refine List.cons_subset.mpr ⟨?_, List.cons_subset.mpr ⟨?_, List.nil_subset _⟩⟩
    · exact hmem ("black", _) List.mem_cons_self (by decide +kernel)
    · exact hmem ("charcoal", _) (List.mem_cons_of_mem _ List.mem_cons_self)
        (by decide +kernel)
  · rw [length_candidates_standard]
    decide

/-- The mix of 2 ^ 58 copies of the only candidate cannot be searched for with as many colors,
although there is a single tuple of them. -/
theorem search?_mix_too_long :
    let gray : Color Float := Color.solid ⟨0.5, 0.0, 0.0⟩
    let palette : Palette Float := ⟨⟨[("gray", gray)], []⟩, by decide⟩
    let colors : List (Color Float) := List.replicate (2 ^ 58) gray
    colors ≠ [] ∧ colors ⊆ palette.candidates ∧
      palette.candidates.length ^ colors.length ≤ maxTuples ∧
      palette.search? (Color.mix colors) colors.length = .error .selectionTooLong := by
  intro gray palette colors
  have hmem : gray ∈ palette.candidates :=
    List.mem_map_of_mem ((palette.mem_byHue ("gray", gray)).mpr
      ⟨List.mem_cons_self, by decide +kernel⟩)
  have hcount : palette.candidates.length = 1 := by
    rw [length_candidates]
    decide +kernel
  have hlength : colors.length = 2 ^ 58 := List.length_replicate
  refine ⟨?_, fun c hc => List.eq_of_mem_replicate hc ▸ hmem, ?_, ?_⟩
  · exact List.ne_nil_of_length_pos (hlength ▸ by decide)
  · rw [hcount, one_pow]
    decide
  · exact search?_of_lt (List.ne_nil_of_mem hmem) (hlength ▸ by decide) _

end Palette

end ColorWords
