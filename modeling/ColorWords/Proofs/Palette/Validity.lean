import ColorWords.Palette
import ColorWords.Proofs.Text.Words
import Mathlib.Data.List.Induction
import Mathlib.Data.List.Nodup

/-!
# Valid drafts

A list of names is sound if every name is a word and none occurs twice. The survey of a list
reads on as long as the names read so far are sound and stops at the first offence, be it a
name that is no word or one that occurred before. Sound names pass with one remark for each
name that reads as an adjective.

A draft without fault has sound names, colors before aliases, and aliases of named colors only.
-/

namespace ColorWords

open Description

namespace Draft

/-! ## Sound names -/

/-- Every name is a word, and no name occurs twice. -/
def SoundNames (names : List String) : Prop := (∀ name ∈ names, IsWord name) ∧ names.Nodup

/-- After the given names, the next one is no word or occurs again. -/
def Offends (before : List String) (name : String) : Prop := ¬ IsWord name ∨ name ∈ before

/-- The fault of a name that offends: its characters come before its being used twice. -/
def offence (name : String) : PaletteError :=
  if IsWord name then .duplicateName name else .invalidName name

/-- The remarks about names that read as adjectives. -/
def adjectiveNotices (names : List String) : List Notice :=
  names.filterMap fun name => (Adjective.ofWord? name).map (.adjectiveName name)

/-- Remarks about names come in the order of the names. -/
theorem adjectiveNotices_append (names others : List String) :
    adjectiveNotices (names ++ others) = adjectiveNotices names ++ adjectiveNotices others :=
  List.filterMap_append

/-- A name is acceptable exactly if it is a word. -/
theorem isName_eq_true_iff (name : String) : isName name = true ↔ IsWord name := by
  simp [isName, IsWord]

/-- Names are sound exactly if the first ones are and the last one does not offend. -/
theorem soundNames_append_singleton (before : List String) (name : String) :
    SoundNames (before ++ [name]) ↔ SoundNames before ∧ ¬ Offends before name := by
  unfold SoundNames Offends
  rw [List.forall_mem_append, List.forall_mem_singleton, List.nodup_append_comm,
    List.singleton_append, List.nodup_cons]
  tauto

/-- Names that are not sound have a first offence. -/
theorem exists_first_offence {names : List String} (h : ¬ SoundNames names) :
    ∃ before name after, names = before ++ name :: after ∧ SoundNames before ∧
      Offends before name := by
  induction names using List.reverseRecOn with
  | nil => exact absurd ⟨by simp, List.nodup_nil⟩ h
  | append_singleton rest last ih =>
    by_cases hrest : SoundNames rest
    · refine ⟨rest, last, [], rfl, hrest, ?_⟩
      by_contra hlast
      exact h ((soundNames_append_singleton rest last).mpr ⟨hrest, hlast⟩)
    · obtain ⟨before, name, after, rfl, hbefore, hname⟩ := ih hrest
      exact ⟨before, name, after ++ [last], by simp, hbefore, hname⟩

/-! ## The survey of names -/

/-- A survey reads on past a name that is a word and was not seen. -/
theorem surveyFrom_cons {seen : List String} {name : String} (hword : IsWord name)
    (hseen : name ∉ seen) (rest : List String) :
    surveyFrom seen (name :: rest) =
      ⟨adjectiveNotices [name] ++ (surveyFrom (name :: seen) rest).notices,
        (surveyFrom (name :: seen) rest).error?⟩ := by
  simp only [surveyFrom, (isName_eq_true_iff name).mpr hword, hseen, Bool.not_true,
    Bool.false_eq_true, if_false]
  cases h : Adjective.ofWord? name <;> simp [adjectiveNotices, h]

/-- A survey reads on past sound names that were not seen. -/
theorem surveyFrom_append {seen before : List String} (hsound : SoundNames before)
    (hseen : ∀ name ∈ before, name ∉ seen) (rest : List String) :
    surveyFrom seen (before ++ rest) =
      ⟨adjectiveNotices before ++ (surveyFrom (before.reverse ++ seen) rest).notices,
        (surveyFrom (before.reverse ++ seen) rest).error?⟩ := by
  induction before generalizing seen with
  | nil => rfl
  | cons name before ih =>
    obtain ⟨hwords, hnodup⟩ := hsound
    rw [List.nodup_cons] at hnodup
    have hrest : ∀ other ∈ before, other ∉ name :: seen := by
      intro other hother hmem
      rcases List.mem_cons.mp hmem with rfl | hmem
      · exact hnodup.1 hother
      · exact hseen other (List.mem_cons_of_mem _ hother) hmem
    rw [List.cons_append, surveyFrom_cons (hwords name List.mem_cons_self)
      (hseen name List.mem_cons_self),
      ih ⟨fun other hother => hwords other (List.mem_cons_of_mem _ hother), hnodup.2⟩ hrest,
      List.reverse_cons, List.append_assoc, List.singleton_append, ← List.append_assoc,
      ← adjectiveNotices_append, List.singleton_append]

/-- A survey stops at a name that offends. -/
theorem surveyFrom_offends {seen : List String} {name : String} (h : Offends seen name)
    (rest : List String) : surveyFrom seen (name :: rest) = ⟨[], some (offence name)⟩ := by
  by_cases hword : IsWord name
  · have hseen : name ∈ seen := h.resolve_left (not_not_intro hword)
    simp [surveyFrom, (isName_eq_true_iff name).mpr hword, hseen, offence, hword]
  · have hname : isName name = false := by
      rwa [← Bool.not_eq_true, isName_eq_true_iff]
    simp [surveyFrom, hname, offence, hword]

/-- Sound names pass the survey. -/
theorem surveyFrom_of_sound {names : List String} (h : SoundNames names) :
    surveyFrom [] names = ⟨adjectiveNotices names, none⟩ := by
  have hunseen : ∀ name ∈ names, name ∉ ([] : List String) := by simp
  simpa [surveyFrom] using surveyFrom_append h hunseen []

/-- Other names fail it at their first offence. -/
theorem surveyFrom_of_offends {before : List String} {name : String} (hbefore : SoundNames before)
    (h : Offends before name) (after : List String) :
    surveyFrom [] (before ++ name :: after) =
      ⟨adjectiveNotices before, some (offence name)⟩ := by
  have hoffends : Offends (before.reverse ++ []) name := by simpa [Offends] using h
  rw [surveyFrom_append hbefore (by simp), surveyFrom_offends hoffends, List.append_nil]

/-! ## The first fault -/

variable {α : Type}

/-- The names of the colors and then the aliases. -/
def allNames (draft : Draft α) : List String := draft.names ++ draft.aliases.map Prod.fst

/-- The fault of a draft: the first offence among its names, and only if there is none, the
target of the first alias that stands for no named color. -/
inductive FirstFault (draft : Draft α) : PaletteError → Prop where
  | name {before after : List String} {name : String}
      (hnames : draft.allNames = before ++ name :: after) (hbefore : SoundNames before)
      (hname : Offends before name) : FirstFault draft (offence name)
  | target {before after : List (String × String)} {name target : String}
      (hsound : SoundNames draft.allNames)
      (haliases : draft.aliases = before ++ (name, target) :: after)
      (hbefore : ∀ pair ∈ before, pair.2 ∈ draft.names) (htarget : target ∉ draft.names) :
      FirstFault draft (.unknownAliasTarget target)

/-- The names are sound, and every alias stands for a named color. -/
structure IsSound (draft : Draft α) : Prop where
  names : SoundNames draft.allNames
  targets : ∀ pair ∈ draft.aliases, pair.2 ∈ draft.names

/-- If the names are sound, only targets can be at fault. -/
theorem error?_of_soundNames {draft : Draft α} (h : SoundNames draft.allNames) :
    draft.error? = targetError? draft.names draft.aliases := by
  rw [error?, firstError?, ← allNames, surveyFrom_of_sound h]
  rfl

/-- The first offence among the names is the fault. -/
theorem error?_of_offends {draft : Draft α} {before after : List String} {name : String}
    (hnames : draft.allNames = before ++ name :: after) (hbefore : SoundNames before)
    (hname : Offends before name) : draft.error? = some (offence name) := by
  rw [error?, firstError?, ← allNames, hnames, surveyFrom_of_offends hbefore hname]
  rfl

/-- The first target that is no named color is at fault. -/
theorem targetError?_eq_some_iff (names : List String) (aliases : List (String × String))
    (error : PaletteError) :
    targetError? names aliases = some error ↔
      ∃ before name target after, aliases = before ++ (name, target) :: after ∧
        (∀ pair ∈ before, pair.2 ∈ names) ∧ target ∉ names ∧
        error = .unknownAliasTarget target := by
  rw [targetError?, Option.map_eq_some_iff]
  constructor
  · rintro ⟨⟨name, target⟩, hfind, rfl⟩
    obtain ⟨htarget, before, after, rfl, hbefore⟩ := List.find?_eq_some_iff_append.mp hfind
    exact ⟨before, name, target, after, rfl, by simpa using hbefore, by simpa using htarget, rfl⟩
  · rintro ⟨before, name, target, after, rfl, hbefore, htarget, rfl⟩
    refine ⟨(name, target), List.find?_eq_some_iff_append.mpr ?_, rfl⟩
    exact ⟨by simpa using htarget, before, after, rfl, by simpa using hbefore⟩

/-- No target is at fault exactly if all of them are named colors. -/
theorem targetError?_eq_none_iff (names : List String) (aliases : List (String × String)) :
    targetError? names aliases = none ↔ ∀ pair ∈ aliases, pair.2 ∈ names := by
  simp [targetError?]

/-- The fault of a draft is the first one. -/
theorem error?_eq_some_iff (draft : Draft α) (error : PaletteError) :
    draft.error? = some error ↔ FirstFault draft error := by
  constructor
  · intro herror
    by_cases hsound : SoundNames draft.allNames
    · rw [error?_of_soundNames hsound] at herror
      obtain ⟨before, name, target, after, haliases, hbefore, htarget, rfl⟩ :=
        (targetError?_eq_some_iff _ _ _).mp herror
      exact .target hsound haliases hbefore htarget
    · obtain ⟨before, name, after, hnames, hbefore, hname⟩ := exists_first_offence hsound
      rw [error?_of_offends hnames hbefore hname, Option.some.injEq] at herror
      exact herror ▸ .name hnames hbefore hname
  · intro hfault
    cases hfault with
    | name hnames hbefore hname => exact error?_of_offends hnames hbefore hname
    | target hsound haliases hbefore htarget =>
      rw [error?_of_soundNames hsound]
      exact (targetError?_eq_some_iff _ _ _).mpr ⟨_, _, _, _, haliases, hbefore, htarget, rfl⟩

/-- A draft is without fault exactly if it is sound. -/
theorem error?_eq_none_iff (draft : Draft α) : draft.error? = none ↔ draft.IsSound := by
  constructor
  · intro hnone
    have hsound : SoundNames draft.allNames := by
      by_contra hsound
      obtain ⟨before, name, after, hnames, hbefore, hname⟩ := exists_first_offence hsound
      rw [error?_of_offends hnames hbefore hname] at hnone
      exact Option.some_ne_none _ hnone
    rw [error?_of_soundNames hsound, targetError?_eq_none_iff] at hnone
    exact ⟨hsound, hnone⟩
  · intro h
    rw [error?_of_soundNames h.names, targetError?_eq_none_iff]
    exact h.targets

/-! ## Building -/

/-- Building succeeds exactly with the draft itself, if it has no fault. -/
theorem build_eq_ok_iff (draft : Draft α) (palette : Palette α) :
    draft.build = .ok palette ↔ palette.toDraft = draft := by
  unfold build
  constructor
  · intro h
    split at h
    · next hnone => exact (Except.ok.inj h) ▸ rfl
    · exact absurd h (by simp)
  · rintro rfl
    split
    · rfl
    · next error herror => exact absurd (palette.valid.symm.trans herror) (by simp)

/-- Building fails exactly with the fault of the draft. -/
theorem build_eq_error_iff (draft : Draft α) (error : PaletteError) :
    draft.build = .error error ↔ draft.error? = some error := by
  unfold build
  split
  · next hnone => simp [hnone]
  · next fault hfault => simp [hfault]

end Draft

/-- The draft of a palette is sound. -/
theorem Palette.isSound {α : Type} (palette : Palette α) : palette.toDraft.IsSound :=
  (Draft.error?_eq_none_iff _).mp palette.valid

end ColorWords
