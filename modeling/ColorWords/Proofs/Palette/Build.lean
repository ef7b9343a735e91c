import ColorWords.Proofs.Palette.Lookup
import ColorWords.Scalar.Binary64

/-!
# Building a palette

Additions to a draft are kept in order, colors apart from aliases. Building the draft fails with
its first fault or leads to a palette whose lookups are determined by the additions. The remarks
made on the way concern the names up to the first offence.
-/

namespace ColorWords

open Description Draft

variable {α : Type}

/-- The named color of an addition. -/
def Addition.entry? : Addition α → Option (String × Color α)
  | entry name color => some (name, color)
  | synonym _ _ => none

/-- The alias of an addition with its target. -/
def Addition.synonym? : Addition α → Option (String × String)
  | entry _ _ => none
  | synonym name target => some (name, target)

namespace Draft

/-- Additions come after what a draft holds, in order. -/
theorem foldl_add (additions : List (Addition α)) (draft : Draft α) :
    additions.foldl add draft =
      ⟨draft.entries ++ additions.filterMap Addition.entry?,
        draft.aliases ++ additions.filterMap Addition.synonym?⟩ := by
  induction additions generalizing draft with
  | nil => simp
  | cons addition rest ih =>
    rw [List.foldl_cons, ih]
    cases addition with
    | entry name color =>
      simp [add, addColor, List.filterMap_cons, Addition.entry?, Addition.synonym?]
    | synonym name target =>
      simp [add, addAlias, List.filterMap_cons, Addition.entry?, Addition.synonym?]

/-- A draft holds its additions in order. -/
theorem ofAdditions_eq (additions : List (Addition α)) :
    ofAdditions additions =
      ⟨additions.filterMap Addition.entry?, additions.filterMap Addition.synonym?⟩ := by
  rw [ofAdditions, foldl_add]
  rfl

/-- Building succeeds exactly for a sound draft. -/
theorem exists_build_eq_ok_iff (draft : Draft α) :
    (∃ palette, draft.build = .ok palette) ↔ draft.IsSound := by
  rw [← error?_eq_none_iff]
  constructor
  · rintro ⟨palette, hbuild⟩
    exact (build_eq_ok_iff draft palette).mp hbuild ▸ palette.valid
  · intro hvalid
    exact ⟨⟨draft, hvalid⟩, (build_eq_ok_iff draft _).mpr rfl⟩

/-- The draft of any additions holds them in order. It builds exactly if its names are words used
once and its aliases stand for named colors, and otherwise fails with its first fault. The
lookups of the palette follow the additions. -/
theorem build_ofAdditions [Scalar α] (additions : List (Addition α)) :
    let entries := additions.filterMap Addition.entry?
    let aliases := additions.filterMap Addition.synonym?
    let draft := ofAdditions additions
    draft = ⟨entries, aliases⟩ ∧
    ((∃ palette, draft.build = .ok palette) ↔
      (∀ name ∈ draft.allNames, IsWord name) ∧ draft.allNames.Nodup ∧
        ∀ pair ∈ aliases, pair.2 ∈ draft.names) ∧
    (∀ error, draft.build = .error error ↔ draft.FirstFault error) ∧
    (SoundNames draft.allNames → draft.notices = adjectiveNotices draft.allNames) ∧
    (∀ before name after, draft.allNames = before ++ name :: after → SoundNames before →
      Offends before name → draft.notices = adjectiveNotices before) ∧
    ∀ palette, draft.build = .ok palette →
      palette.entries = entries ∧
      List.Forall₂ (fun pair listed => listed.1 = pair.1 ∧ (pair.2, listed.2) ∈ entries)
        aliases palette.aliasColors ∧
      (∀ name color, palette.get? name = some color ↔
        (name, color) ∈ entries ∨
          ∃ target, (name, target) ∈ aliases ∧ (target, color) ∈ entries) ∧
      (∀ name, palette.get? name = none ↔ name ∉ draft.allNames) ∧
      (∀ name target, palette.aliasTarget? name = some target ↔ (name, target) ∈ aliases) ∧
      (∀ name, palette.contains name = true ↔ name ∈ draft.allNames) ∧
      (∀ name, palette.lookup name = (palette.get? name).getD Color.neutral) ∧
      palette.size = entries.length ∧ (palette.isEmpty = true ↔ entries = []) := by
  intro entries aliases draft
  have hdraft : draft = ⟨entries, aliases⟩ := ofAdditions_eq additions
  have haliases : draft.aliases = aliases := congrArg Draft.aliases hdraft
  refine ⟨hdraft, ?_, ?_, ?_, ?_, ?_⟩
  · rw [exists_build_eq_ok_iff, ← haliases]
    exact ⟨fun h => ⟨h.names.1, h.names.2, h.targets⟩, fun h => ⟨⟨h.1, h.2.1⟩, h.2.2⟩⟩
  · intro error
    rw [build_eq_error_iff, error?_eq_some_iff]
  · intro hsound
    rw [notices, ← allNames, surveyFrom_of_sound hsound]
  · intro before name after hnames hbefore hname
    rw [notices, ← allNames, hnames, surveyFrom_of_offends hbefore hname]
  · intro palette hbuild
    have hpalette : palette.toDraft = draft := (build_eq_ok_iff draft palette).mp hbuild
    have hentries : palette.entries = entries := congrArg Draft.entries (hpalette.trans hdraft)
    have hsynonyms : palette.aliases = aliases := congrArg Draft.aliases (hpalette.trans hdraft)
    have hknown : ∀ name, (∃ color, palette.get? name = some color) ↔ name ∈ draft.allNames :=
      fun name => hpalette ▸ palette.exists_get?_iff name
    rw [← hentries, ← hsynonyms]
    refine ⟨rfl, palette.aliasColors_forall₂, palette.get?_eq_some_iff, ?_,
      palette.aliasTarget?_eq_some_iff, ?_, fun _ => rfl, rfl, ?_⟩
    · intro name
      rw [← hknown, ← Option.ne_none_iff_exists', not_not]
    · intro name
      rw [Palette.contains, Option.isSome_iff_exists, hknown]
    · rw [Palette.isEmpty, List.isEmpty_iff]

-- An alias is no target for another alias.
example : (ofAdditions [.synonym "crimson" "rubin", .synonym "rubin" "ruby",
    .entry "ruby" (Color.neutral : Color Float)]).error? = some (.unknownAliasTarget "rubin") := by
  decide

end Draft

end ColorWords
