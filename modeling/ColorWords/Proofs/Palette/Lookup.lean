import ColorWords.Proofs.Palette.Validity

/-!
# Looking up names

In a palette no name is used twice, so the order of definitions does not matter for a lookup: a
name stands for a color exactly if the palette lists the pair, be it as a named color or through
an alias whose target is a named color.
-/

namespace ColorWords

/-- Where no key occurs twice, a lookup finds exactly what is listed. -/
theorem lookup_eq_some_iff_mem {β : Type} {pairs : List (String × β)}
    (h : (pairs.map Prod.fst).Nodup) (name : String) (value : β) :
    pairs.lookup name = some value ↔ (name, value) ∈ pairs := by
  induction pairs with
  | nil => simp
  | cons pair rest ih =>
    obtain ⟨first, held⟩ := pair
    rw [List.map_cons, List.nodup_cons] at h
    by_cases hfirst : name = first
    · subst hfirst
      have hrest : (name, value) ∉ rest := fun hmem => h.1 (List.mem_map.mpr ⟨_, hmem, rfl⟩)
      simp [hrest, eq_comm]
    · rw [List.lookup_cons, beq_false_of_ne hfirst, ih h.2]
      simp [hfirst]

namespace Palette

variable {α : Type}

/-- No name of a palette is used twice. -/
theorem nodup_allNames (palette : Palette α) : palette.allNames.Nodup := palette.isSound.names.2

/-- Every named color of a palette has a word for its name. -/
theorem isWord_of_mem_entries (palette : Palette α) {entry : String × Color α}
    (h : entry ∈ palette.entries) : Description.IsWord entry.1 :=
  palette.isSound.names.1 _ (List.mem_append_left _ (List.mem_map_of_mem h))

/-- Every alias of a palette is a word and stands for one. -/
theorem isWord_of_mem_aliases (palette : Palette α) {pair : String × String}
    (h : pair ∈ palette.aliases) : Description.IsWord pair.1 ∧ Description.IsWord pair.2 := by
  have htarget := palette.isSound.targets pair h
  exact ⟨palette.isSound.names.1 _ (List.mem_append_right _ (List.mem_map_of_mem h)),
    palette.isSound.names.1 _ (List.mem_append_left _ htarget)⟩

/-- No two named colors of a palette share their name. -/
theorem nodup_names (palette : Palette α) : (palette.entries.map Prod.fst).Nodup :=
  (List.nodup_append.mp palette.nodup_allNames).1

/-- No alias of a palette is the name of a named color. -/
theorem fst_ne_of_mem_aliases (palette : Palette α) {pair : String × String}
    (hpair : pair ∈ palette.aliases) {entry : String × Color α} (hentry : entry ∈ palette.entries) :
    entry.1 ≠ pair.1 :=
  (List.nodup_append.mp palette.nodup_allNames).2.2 _ (List.mem_map_of_mem hentry)
    _ (List.mem_map_of_mem hpair)

/-- The lookup among named colors finds exactly what is listed. -/
theorem entries_lookup_eq_some_iff (palette : Palette α) (name : String) (color : Color α) :
    palette.entries.lookup name = some color ↔ (name, color) ∈ palette.entries :=
  lookup_eq_some_iff_mem palette.nodup_names name color

/-- Exactly the aliases have a target. -/
theorem aliasTarget?_eq_some_iff (palette : Palette α) (name target : String) :
    palette.aliasTarget? name = some target ↔ (name, target) ∈ palette.aliases :=
  lookup_eq_some_iff_mem (List.nodup_append.mp palette.nodup_allNames).2.1 name target

/-- Every target of an alias is a named color. -/
theorem exists_color_of_mem_aliases (palette : Palette α) {name target : String}
    (h : (name, target) ∈ palette.aliases) : ∃ color, (target, color) ∈ palette.entries := by
  obtain ⟨⟨name, color⟩, hentry, rfl⟩ := List.mem_map.mp (palette.isSound.targets _ h)
  exact ⟨color, hentry⟩

/-- A named color is no alias. -/
theorem aliasTarget?_of_mem_entries (palette : Palette α) {name : String} {color : Color α}
    (h : (name, color) ∈ palette.entries) : palette.aliasTarget? name = none := by
  by_contra halias
  obtain ⟨target, htarget⟩ := Option.ne_none_iff_exists'.mp halias
  have hmem := (palette.aliasTarget?_eq_some_iff name target).mp htarget
  exact palette.fst_ne_of_mem_aliases hmem h rfl

/-- A name stands for the color listed with it, or listed with the target of an alias. -/
theorem get?_eq_some_iff (palette : Palette α) (name : String) (color : Color α) :
    palette.get? name = some color ↔
      (name, color) ∈ palette.entries ∨
        ∃ target, (name, target) ∈ palette.aliases ∧ (target, color) ∈ palette.entries := by
  unfold get?
  cases hentry : palette.entries.lookup name with
  | some held =>
    have hheld := (palette.entries_lookup_eq_some_iff name held).mp hentry
    have hnoAlias : ∀ target, (name, target) ∉ palette.aliases := fun target hmem => by
      have htarget := (palette.aliasTarget?_eq_some_iff name target).mpr hmem
      rw [palette.aliasTarget?_of_mem_entries hheld] at htarget
      exact Option.some_ne_none _ htarget.symm
    rw [← palette.entries_lookup_eq_some_iff name color, hentry]
    simp [hnoAlias]
  | none =>
    have hnoEntry : (name, color) ∉ palette.entries := by
      rw [← palette.entries_lookup_eq_some_iff, hentry]
      exact (Option.some_ne_none _).symm
    simp [hnoEntry, Option.bind_eq_some_iff, aliasTarget?_eq_some_iff, entries_lookup_eq_some_iff]

/-- Lookups do not depend on the order of what is listed. -/
theorem get?_eq_of_perm {x y : Palette α} (hentries : x.entries.Perm y.entries)
    (haliases : x.aliases.Perm y.aliases) (name : String) : x.get? name = y.get? name := by
  refine Option.ext fun color => ?_
  simp only [get?_eq_some_iff, hentries.mem_iff, haliases.mem_iff]

/-- A named color is found by its name. -/
theorem get?_of_mem_entries {palette : Palette α} {entry : String × Color α}
    (h : entry ∈ palette.entries) : palette.get? entry.1 = some entry.2 :=
  (palette.get?_eq_some_iff _ _).mpr (Or.inl h)

/-- Exactly the names and aliases stand for a color. -/
theorem exists_get?_iff (palette : Palette α) (name : String) :
    (∃ color, palette.get? name = some color) ↔ name ∈ palette.allNames := by
  simp only [get?_eq_some_iff, Draft.allNames, Draft.names, List.mem_append, List.mem_map,
    Prod.exists, exists_and_right, exists_eq_right]
  constructor
  · rintro ⟨color, hentry | ⟨target, halias, -⟩⟩
    · exact Or.inl ⟨color, hentry⟩
    · exact Or.inr ⟨target, halias⟩
  · rintro (⟨color, hentry⟩ | ⟨target, halias⟩)
    · exact ⟨color, Or.inl hentry⟩
    · obtain ⟨color, hcolor⟩ := palette.exists_color_of_mem_aliases halias
      exact ⟨color, Or.inr ⟨target, halias, hcolor⟩⟩

/-- The aliases are listed in order, each with the color of its target. -/
theorem aliasColors_forall₂ (palette : Palette α) :
    List.Forall₂ (fun pair listed => listed.1 = pair.1 ∧ (pair.2, listed.2) ∈ palette.entries)
      palette.aliases palette.aliasColors := by
  unfold aliasColors
  have hall : ∀ pair ∈ palette.aliases, ∃ color, (pair.2, color) ∈ palette.entries :=
    fun pair hpair => palette.exists_color_of_mem_aliases hpair
  generalize palette.aliases = aliases at hall
  induction aliases with
  | nil => exact .nil
  | cons pair rest ih =>
    obtain ⟨name, target⟩ := pair
    obtain ⟨color, hcolor⟩ := hall (name, target) List.mem_cons_self
    have hlookup := (palette.entries_lookup_eq_some_iff target color).mpr hcolor
    rw [List.filterMap_cons_some (by simp only [hlookup, Option.map_some]; rfl)]
    exact .cons ⟨rfl, hcolor⟩ (ih fun other hother => hall other (List.mem_cons_of_mem _ hother))

end Palette

end ColorWords
