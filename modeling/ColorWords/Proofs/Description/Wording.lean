import ColorWords.Proofs.Description.Reading
import ColorWords.Proofs.Palette.Lookup
import ColorWords.Proofs.Phrase
import ColorWords.Proofs.Search.Optimal
import ColorWords.Scalar.Binary64Text
import Mathlib.Data.List.GetD

/-!
# Reading what a search writes

The text of a match consists of the adjectives of its intensity and the names of its
candidates, and reading it finds exactly these words. As names of a palette are words, none is
split or joined with its neighbor, and as they are unique, each one leads back to the color that
was mixed. Only a name with the shape of an adjective is read as something else.

There is no text if the search fails, which depends on the number of names alone.
-/

namespace ColorWords

open Description Scalar

namespace Reading

variable {α : Type} [Scalar α]

/-- Adjectives followed by known names read as these adjectives and the colors named. -/
theorem ofText_eq {palette : Palette α} {text : String} {adjectives : List Adjective}
    {listed : List (String × Color α)}
    (hwords : words text = adjectives.map Adjective.word ++ listed.map Prod.fst)
    (hknown : ∀ entry ∈ listed, palette.get? entry.1 = some entry.2)
    (hshape : ∀ entry ∈ listed, Adjective.ofWord? entry.1 = none) :
    ofText palette text =
      { lightness := .ofList (adjectives.map fun a => ofPercent a.lightness)
        saturation := .ofList (adjectives.map fun a => ofPercent a.saturation)
        colors := (listed.map Prod.snd).toArray
        unknown := #[] } := by
  have hwordsOf : ∀ word ∈ adjectives.map Adjective.word, (Adjective.ofWord? word).isSome := by
    rintro word hword
    obtain ⟨adjective, -, rfl⟩ := List.mem_map.mp hword
    rw [Adjective.ofWord?_word]
    rfl
  have hnames : ∀ name ∈ listed.map Prod.fst, Adjective.ofWord? name = none :=
    List.forall_mem_map.mpr hshape
  have hadjectives : adjectivesOf (words text) = adjectives := by
    rw [hwords, adjectivesOf_append, (parts_of_names hnames).1, adjectivesOf, List.filterMap_map,
      List.append_nil]
    exact (List.filterMap_congr fun adjective _ => adjective.ofWord?_word).trans
      List.filterMap_some
  have hnamesOf : namesOf (words text) = listed.map Prod.fst := by
    rw [hwords, namesOf_append, namesOf_eq_nil hwordsOf, (parts_of_names hnames).2, List.nil_append]
  have hcolors : (listed.map Prod.fst).map palette.lookup = listed.map Prod.snd := by
    rw [List.map_map]
    exact List.map_congr_left fun entry hentry => by simp [Palette.lookup, hknown entry hentry]
  have hunknown : (listed.map Prod.fst).filter (fun name => (palette.get? name).isNone) = [] := by
    refine List.filter_eq_nil_iff.mpr (List.forall_mem_map.mpr fun entry hentry => ?_)
    simp [hknown entry hentry]
  rw [ofText_eq_parts, hadjectives, hnamesOf, hcolors, hunknown]

end Reading

/-! ## The words of a match -/

/-- The adjectives that the text of a match begins with. -/
def Match.adjectives {α : Type} (found : Match α) : List Adjective :=
  Phrase.adjectives found.intensity.saturationTier found.intensity.lightnessTier

namespace Palette

variable {α : Type} [Scalar α] [ColorModel α]

/-- The named colors at the given positions in the order by hue. -/
def candidatesAt (palette : Palette α) (indices : List ℕ) : List (String × Color α) :=
  indices.map fun i => palette.byHue.getD i ("", Color.neutral)

/-- The names at positions are those of the named colors there. -/
theorem map_fst_candidatesAt (palette : Palette α) (indices : List ℕ) :
    (palette.candidatesAt indices).map Prod.fst =
      indices.map fun i => palette.candidateNames.getD i "" := by
  rw [candidatesAt, List.map_map]
  exact List.map_congr_left fun i _ => (List.getD_map _ ("", Color.neutral) Prod.fst).symm

/-- The colors at positions are those of the named colors there. -/
theorem map_snd_candidatesAt (palette : Palette α) (indices : List ℕ) :
    (palette.candidatesAt indices).map Prod.snd =
      Search.colorsAt palette.candidates indices := by
  rw [candidatesAt, List.map_map]
  exact List.map_congr_left fun i _ => (List.getD_map _ ("", Color.neutral) Prod.snd).symm

/-- Positions of candidates lead to named colors with some alpha. -/
theorem mem_of_mem_candidatesAt {palette : Palette α} {indices : List ℕ}
    (h : ∀ i ∈ indices, i < palette.candidates.length) {entry : String × Color α}
    (hentry : entry ∈ palette.candidatesAt indices) :
    entry ∈ palette.entries ∧ (0.0 : α) < entry.2.alpha := by
  obtain ⟨i, hi, rfl⟩ := List.mem_map.mp hentry
  have hlt : i < palette.byHue.length := by simpa [candidates] using h i hi
  rw [← palette.mem_byHue, List.getD_eq_getElem _ _ hlt]
  exact List.getElem_mem hlt

/-- The words of a match are those of its phrase and then the names of its candidates. -/
theorem words_text (palette : Palette α) (found : Match α)
    (h : ∀ i ∈ found.indices, i < palette.candidates.length) :
    words (found.text palette.candidateNames.toArray) =
      found.adjectives.map Adjective.word ++
        (palette.candidatesAt found.indices).map Prod.fst := by
  have hnames : ∀ name ∈ (palette.candidatesAt found.indices).map Prod.fst, IsWord name := by
    intro name hname
    obtain ⟨entry, hentry, rfl⟩ := List.mem_map.mp hname
    exact palette.isWord_of_mem_entries (mem_of_mem_candidatesAt h hentry).1
  have htext : found.text palette.candidateNames.toArray =
      found.intensity.phrase ++
        String.intercalate " " ((palette.candidatesAt found.indices).map Prod.fst) := by
    rw [map_fst_candidatesAt]
    simp [Match.text]
  rw [htext, Intensity.phrase, Phrase.words_text_append, words_intercalate hnames,
    Match.adjectives]

/-- If no chosen name reads as an adjective, the text of a match reads as its adjectives and the
colors that were mixed. -/
theorem ofText_text (palette : Palette α) (found : Match α)
    (h : ∀ i ∈ found.indices, i < palette.candidates.length)
    (hshape : ∀ entry ∈ palette.candidatesAt found.indices, Adjective.ofWord? entry.1 = none) :
    Reading.ofText palette (found.text palette.candidateNames.toArray) =
      { lightness := .ofList (found.adjectives.map fun a => ofPercent a.lightness)
        saturation := .ofList (found.adjectives.map fun a => ofPercent a.saturation)
        colors := (Search.colorsAt palette.candidates found.indices).toArray
        unknown := #[] } := by
  rw [Reading.ofText_eq (palette.words_text found h)
    (fun entry hentry => get?_of_mem_entries (mem_of_mem_candidatesAt h hentry).1) hshape,
    map_snd_candidatesAt]

/-- No standard name reads as an adjective. -/
theorem ofWord?_standard :
    ∀ name ∈ (standard : Palette α).names, Adjective.ofWord? name = none := by
  have hall : ∀ name ∈ standardColors.map Prod.fst ++ [transparentName],
      Adjective.ofWord? name = none := by decide +kernel
  rw [show (standard : Palette α).names = _ from names_standardDraft]
  exact hall

variable [GamutMap α] [OrderedScalar α] [BoundedScores α]

/-- A search of a palette with any visible color finds something if a selection has room for as many
colors as are mixed. -/
theorem exists_search?_eq_some {palette : Palette α}
    (hvisible : ∃ entry ∈ palette.entries, (0.0 : α) < entry.2.alpha) {target : Color α}
    (htarget : target.IsNormal) {length : ℕ} (hlength : length ≤ Search.maxSelection) :
    ∃ found, palette.search? target length = .ok (some found) := by
  have hcandidates : palette.candidates ≠ [] := fun hnil =>
    palette.candidates_eq_nil_iff.mp hnil hvisible
  obtain ⟨found, hfound, -⟩ := Search.best?_spec hcandidates htarget (max length 1)
  exact ⟨found, by rw [search?_of_ne_nil hcandidates hlength, hfound]⟩

omit [OrderedScalar α] [BoundedScores α] in
/-- A description fails exactly if the search for it fails. -/
theorem describe_eq_error_iff [Numeral α] {palette : Palette α} {target : Color α} {length : ℕ}
    {e : SearchError} : palette.describe target length = .error e ↔
      palette.search? target length = .error e := by
  unfold describe
  cases palette.search? target length <;> simp [Except.map]

/-- The description of a target consists of the adjectives for the winning intensity and the
names of the winning candidates in order, which are named colors with some alpha. If none of
these names reads as an adjective, the description reads as exactly the adjectives and the
colors of the winner. There is no description exactly if a selection has no room for as many colors
as are mixed. -/
theorem describe_words [Numeral α] (palette : Palette α)
    (hvisible : ∃ entry ∈ palette.entries, (0.0 : α) < entry.2.alpha) (target : Color α)
    (htarget : target.IsNormal) (length : ℕ) :
    (palette.describe target length = .error .selectionTooLong ↔ Search.maxSelection < length) ∧
    (length ≤ Search.maxSelection →
      ∃ found text, palette.search? target length = .ok (some found) ∧
        palette.describe target length = .ok (text,
          [.described target.text text (String.ofList (Numeral.write found.distance))]) ∧
        let chosen := found.indices.map fun i => palette.candidateNames.getD i ""
        words text = words found.intensity.phrase ++ chosen ∧
        words found.intensity.phrase = found.adjectives.map Adjective.word ∧
        found.adjectives.length ≤ 2 ∧
        (∀ adjective ∈ found.adjectives, Adjective.ofWord? adjective.word = some adjective) ∧
        chosen.length = max length 1 ∧
        (∀ i ∈ found.indices, i < palette.candidateNames.length) ∧
        (∀ name ∈ chosen, palette.aliasTarget? name = none ∧
          ∃ color, (name, color) ∈ palette.entries ∧ (0.0 : α) < color.alpha) ∧
        ((∀ name ∈ chosen, Adjective.ofWord? name = none) →
          Reading.ofText palette text =
              { lightness := .ofList (found.adjectives.map fun a => ofPercent a.lightness)
                saturation := .ofList (found.adjectives.map fun a => ofPercent a.saturation)
                colors := (Search.colorsAt palette.candidates found.indices).toArray
                unknown := #[] } ∧
            (Reading.ofText palette text).notices = [])) := by
  have hcandidates : palette.candidates ≠ [] := fun hnil =>
    palette.candidates_eq_nil_iff.mp hnil hvisible
  refine ⟨?_, fun hlength => ?_⟩
  · rw [describe_eq_error_iff, search?_eq_error_iff, and_iff_right hcandidates]
  obtain ⟨found, hfound⟩ := exists_search?_eq_some hvisible htarget hlength
  have htuple := isTuple_of_search?_eq_some hfound
  refine ⟨found, found.text palette.candidateNames.toArray, hfound, by rw [describe, hfound]; rfl,
    ?_⟩
  intro chosen
  have hphrase : words found.intensity.phrase = found.adjectives.map Adjective.word := by
    simpa [Intensity.phrase, Match.adjectives] using
      Phrase.words_text_append found.intensity.saturationTier found.intensity.lightnessTier ""
  have hchosen : (palette.candidatesAt found.indices).map Prod.fst = chosen :=
    palette.map_fst_candidatesAt found.indices
  refine ⟨?_, hphrase, Phrase.length_adjectives_le _ _, fun adjective _ => adjective.ofWord?_word,
    ?_, ?_, ?_, ?_⟩
  · rw [hphrase, ← hchosen, ← palette.words_text found htuple.2]
  · rw [List.length_map, htuple.1]
  · simpa [candidates, candidateNames] using htuple.2
  · intro name hname
    rw [← hchosen] at hname
    obtain ⟨entry, hentry, rfl⟩ := List.mem_map.mp hname
    obtain ⟨hlisted, halpha⟩ := mem_of_mem_candidatesAt htuple.2 hentry
    exact ⟨palette.aliasTarget?_of_mem_entries hlisted, entry.2, hlisted, halpha⟩
  · intro hshape
    have hread := palette.ofText_text found htuple.2 fun entry hentry =>
      hshape entry.1 (hchosen ▸ List.mem_map_of_mem hentry)
    exact ⟨hread, by rw [Reading.notices, hread]; rfl⟩

/-- The description of the byte color `#123456` by two standard colors reads as these colors. -/
theorem describe_words_standard :
    let palette : Palette Float := standard
    let target : Color Float := Color.ofBytes ⟨0x12, 0x34, 0x56⟩
    ∃ found text, palette.search? target 2 = .ok (some found) ∧ found.indices.length = 2 ∧
      palette.describe target 2 = .ok (text,
        [.described target.text text (String.ofList (Numeral.write found.distance))]) ∧
      (words text).length = found.adjectives.length + 2 ∧
      (Reading.ofText palette text).colors.toList =
        Search.colorsAt palette.candidates found.indices ∧
      (Reading.ofText palette text).notices = [] := by
  intro palette target
  have hvisible : ∃ entry ∈ palette.entries, (0.0 : Float) < entry.2.alpha :=
    ⟨("black", Color.ofBytes ⟨0, 0, 0⟩), List.mem_cons_self, by decide⟩
  have htarget : target.IsNormal := Color.isNormal_make _ _
  obtain ⟨found, text, hfound, htext, hwords, hphrase, -, -, hlength, -, hnames, hread⟩ :=
    (describe_words palette hvisible target htarget 2).2 (by decide)
  have hshape := hread fun name hname => by
    obtain ⟨-, color, hentry, -⟩ := hnames name hname
    exact ofWord?_standard name (List.mem_map_of_mem hentry)
  refine ⟨found, text, hfound, by simpa using hlength, htext, ?_, ?_, hshape.2⟩
  · rw [hwords, hphrase, List.length_append, hlength, List.length_map]
    rfl
  · rw [hshape.1]

/-- A gray that is the only candidate cannot be described by its name 2 ^ 58 times. -/
theorem describe_too_long :
    let gray : Color Float := Color.solid ⟨0.5, 0.0, 0.0⟩
    let palette : Palette Float := ⟨⟨[("gray", gray)], []⟩, by decide⟩
    (∃ entry ∈ palette.entries, (0.0 : Float) < entry.2.alpha) ∧ gray.IsNormal ∧
      palette.describe gray (2 ^ 58) = .error .selectionTooLong := by
  intro gray palette
  have hvisible : ∃ entry ∈ palette.entries, (0.0 : Float) < entry.2.alpha :=
    ⟨("gray", gray), List.mem_cons_self, by decide +kernel⟩
  have hcandidates : palette.candidates ≠ [] := fun hnil =>
    palette.candidates_eq_nil_iff.mp hnil hvisible
  refine ⟨hvisible, Color.isNormal_make _ _, ?_⟩
  exact describe_eq_error_iff.mpr (search?_of_lt hcandidates (by decide) gray)

end Palette

end ColorWords
