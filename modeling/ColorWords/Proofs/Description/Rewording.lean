import ColorWords.Proofs.Adjective
import ColorWords.Proofs.Color.Reachable
import ColorWords.Proofs.Description.Wording
import Mathlib.Logic.Relation

/-!
# Rewording a description

In any arithmetic the color described depends on two lists alone: the adjectives among the words
and the colors that the other words name, each in order. A change of the wording that keeps both
lists therefore keeps the color. Such changes are other separators, other places of adjectives
among names, other spellings of an adjective, the target for an alias, and one unknown name for
another. Adjectives never touch alpha, and every unknown name is remarked on once for each time it
occurs.
-/

namespace ColorWords

open Description Scalar

/-- One change of the words of a description that keeps its adjectives and the colors named. -/
inductive Rewording {α : Type} (palette : Palette α) : List String → List String → Prop where
  | interleave {before after : List String} {word name : String}
      (hword : (Adjective.ofWord? word).isSome) (hname : Adjective.ofWord? name = none) :
      Rewording palette (before ++ word :: name :: after) (before ++ name :: word :: after)
  | recase {before after : List String} {word other : String}
      (hword : (Adjective.ofWord? word).isSome)
      (hcase : Text.lowered word.toList = Text.lowered other.toList) :
      Rewording palette (before ++ word :: after) (before ++ other :: after)
  | canonical {before after : List String} {word : String} {adjective : Adjective}
      (hword : Adjective.ofWord? word = some adjective) :
      Rewording palette (before ++ word :: after) (before ++ adjective.word :: after)
  | resolve {before after : List String} {name target : String}
      (htarget : palette.aliasTarget? name = some target)
      (hname : Adjective.ofWord? name = none) (hshape : Adjective.ofWord? target = none) :
      Rewording palette (before ++ name :: after) (before ++ target :: after)
  | misname {before after : List String} {name other : String}
      (hname : Adjective.ofWord? name = none) (hunknown : palette.get? name = none)
      (hother : Adjective.ofWord? other = none) (hunknownOther : palette.get? other = none) :
      Rewording palette (before ++ name :: after) (before ++ other :: after)

namespace Description

variable {α : Type} [Scalar α]

/-- The words stand for the same adjectives and the same colors. -/
def SameParts (palette : Palette α) (x y : List String) : Prop :=
  adjectivesOf x = adjectivesOf y ∧
    (namesOf x).map palette.lookup = (namesOf y).map palette.lookup

/-- The words between others may be replaced by words with the same parts. -/
theorem SameParts.replace {palette : Palette α} {x y : List String} (h : SameParts palette x y)
    (before after : List String) :
    SameParts palette (before ++ x ++ after) (before ++ y ++ after) := by
  refine ⟨?_, ?_⟩
  · simp only [adjectivesOf_append, h.1]
  · simp only [namesOf_append, List.map_append, h.2]

/-- Words that read as the same adjective have the same parts. -/
theorem sameParts_adjective (palette : Palette α) {x y : String}
    (hword : (Adjective.ofWord? x).isSome) (h : Adjective.ofWord? x = Adjective.ofWord? y) :
    SameParts palette [x] [y] := by
  obtain ⟨adjective, hx⟩ := Option.isSome_iff_exists.mp hword
  have hy := h.symm.trans hx
  simp [SameParts, adjectivesOf, namesOf, hx, hy]

/-- Names of the same color have the same parts. -/
theorem sameParts_name {palette : Palette α} {x y : String}
    (hx : Adjective.ofWord? x = none) (hy : Adjective.ofWord? y = none)
    (h : palette.get? x = palette.get? y) : SameParts palette [x] [y] := by
  simp [SameParts, adjectivesOf, namesOf, hx, hy, Palette.lookup, h]

/-- An adjective and a name have the same parts in either order. -/
theorem sameParts_swap (palette : Palette α) {word name : String}
    (hword : (Adjective.ofWord? word).isSome) (hname : Adjective.ofWord? name = none) :
    SameParts palette [word, name] [name, word] := by
  obtain ⟨adjective, hadjective⟩ := Option.isSome_iff_exists.mp hword
  simp [SameParts, adjectivesOf, namesOf, hadjective, hname]

end Description

namespace Palette

variable {α : Type}

/-- An alias stands for the color of its target. -/
theorem get?_eq_of_aliasTarget? {palette : Palette α} {name target : String}
    (h : palette.aliasTarget? name = some target) : palette.get? name = palette.get? target := by
  have halias := (palette.aliasTarget?_eq_some_iff name target).mp h
  obtain ⟨color, hcolor⟩ := palette.exists_color_of_mem_aliases halias
  have hname := (palette.get?_eq_some_iff name color).mpr (Or.inr ⟨target, halias, hcolor⟩)
  have htarget := (palette.get?_eq_some_iff target color).mpr (Or.inl hcolor)
  rw [hname, htarget]

end Palette

/-- One change of the words keeps their parts. -/
theorem Rewording.sameParts {α : Type} [Scalar α] {palette : Palette α} {x y : List String}
    (h : Rewording palette x y) : SameParts palette x y := by
  cases h with
  | @interleave before after word name hword hname =>
    simpa using (sameParts_swap palette hword hname).replace before after
  | @recase before after word other hword hcase =>
    have hsame := Adjective.ofWord?_eq_of_lowered_eq hcase
    simpa using (sameParts_adjective palette hword hsame).replace before after
  | @canonical before after word adjective hword =>
    have hsame := hword.trans adjective.ofWord?_word.symm
    simpa using (sameParts_adjective palette (by rw [hword]; rfl) hsame).replace before after
  | @resolve before after name target htarget hname hshape =>
    have hsame := Palette.get?_eq_of_aliasTarget? htarget
    simpa using (sameParts_name hname hshape hsame).replace before after
  | @misname before after name other hname hunknown hother hunknownOther =>
    have hsame := hunknown.trans hunknownOther.symm
    simpa using (sameParts_name hname hother hsame).replace before after

/-- Any number of changes keeps the parts of words. -/
theorem sameParts_of_rewordings {α : Type} [Scalar α] {palette : Palette α} {x y : List String}
    (h : Relation.EqvGen (Rewording palette) x y) : SameParts palette x y := by
  induction h with
  | rel _ _ hstep => exact hstep.sameParts
  | refl _ => exact ⟨rfl, rfl⟩
  | symm _ _ _ ih => exact ⟨ih.1.symm, ih.2.symm⟩
  | trans _ _ _ _ _ ihxy ihyz => exact ⟨ihxy.1.trans ihyz.1, ihxy.2.trans ihyz.2⟩

namespace Reading

variable {α : Type} [Scalar α]

/-- The color of a reading has the alpha of the mix. -/
theorem alpha_color [OrderedScalar α] [GamutMap α] (reading : Reading α) :
    reading.color.alpha = reading.base.alpha := by
  have hbase : reading.base.IsNormal := Color.isNormal_mix _
  have hshifted := hbase.shiftLightness reading.lightness.total
  rw [← hbase.alpha_shiftLightness reading.lightness.total]
  unfold Reading.color
  dsimp only
  split
  · exact hshifted.alpha_make _
  · split
    · exact (Color.isNormal_make _ _).alpha_make _ |>.trans (hshifted.alpha_make _)
    · exact hshifted.alpha_make _

/-- The remarks of a reading are about the words that are neither adjectives nor known names. -/
theorem notices_ofText (palette : Palette α) (text : String) :
    (ofText palette text).notices =
      ((words text).filter fun word =>
        (Adjective.ofWord? word).isNone && (palette.get? word).isNone).map .unknownName := by
  rw [notices, ofText_eq_parts, namesOf, List.filter_filter]
  simp only [Bool.and_comm]

end Reading

namespace Palette

/-- The color that a text describes depends on the adjectives among its words and the colors of its
names only, in any arithmetic. So neither separators nor rewordings make a difference. Where
comparisons are lawful, alpha is that of the mix, and the remarks are about the unknown names. -/
theorem colorOf_of_parts :
    (∀ (α : Type) [Scalar α] [GamutMap α] (palette other : Palette α) (x y : String),
      adjectivesOf (words x) = adjectivesOf (words y) →
      (namesOf (words x)).map palette.lookup = (namesOf (words y)).map other.lookup →
      palette.colorOf x = other.colorOf y) ∧
    (∀ (α : Type) [Scalar α] [GamutMap α] (palette : Palette α) (x y gap other : String),
      IsSeparator gap → IsSeparator other →
      palette.colorOf (gap ++ x) = palette.colorOf x ∧
        palette.colorOf (x ++ gap) = palette.colorOf x ∧
        (gap ≠ "" → other ≠ "" →
          palette.colorOf (x ++ gap ++ y) = palette.colorOf (x ++ other ++ y))) ∧
    (∀ (α : Type) [Scalar α] [GamutMap α] (palette : Palette α) (x y : String),
      Relation.EqvGen (Rewording palette) (words x) (words y) →
      palette.colorOf x = palette.colorOf y) ∧
    (∀ (α : Type) [Scalar α] [OrderedScalar α] [GamutMap α] (palette : Palette α) (text : String),
      (palette.colorOf text).alpha =
        (Color.mix ((namesOf (words text)).map palette.lookup)).alpha) ∧
    ∀ (α : Type) [Scalar α] (palette : Palette α) (text : String),
      (Reading.ofText palette text).notices =
        ((words text).filter fun word =>
          (Adjective.ofWord? word).isNone && (palette.get? word).isNone).map .unknownName := by
  have hparts (α : Type) [Scalar α] [GamutMap α] (palette other : Palette α) (x y : String)
      (hadjectives : adjectivesOf (words x) = adjectivesOf (words y))
      (hcolors : (namesOf (words x)).map palette.lookup = (namesOf (words y)).map other.lookup) :
      palette.colorOf x = other.colorOf y := by
    unfold colorOf Reading.color Reading.base
    simp only [Reading.ofText_eq_parts, hadjectives, hcolors]
  refine ⟨hparts, ?_, ?_, ?_, fun α _ palette text => Reading.notices_ofText palette text⟩
  · intro α _ _ palette x y gap other hgap hother
    have hwords {x y : String} (h : words x = words y) : palette.colorOf x = palette.colorOf y :=
      hparts α palette palette x y (by rw [h]) (by rw [h])
    refine ⟨hwords (words_separator_append hgap x), hwords (words_append_gap hgap x),
      fun hne hneOther => hwords ?_⟩
    rw [words_append_separator hgap hne, words_append_separator hother hneOther]
  · intro α _ _ palette x y h
    have hsame := sameParts_of_rewordings h
    exact hparts α palette palette x y hsame.1 hsame.2
  · intro α _ _ _ palette text
    rw [colorOf, Reading.alpha_color, Reading.base, Reading.ofText_eq_parts]

/-- In floats, "dirt" may stand for "dark", "grey" for "gray" and one unknown name for another in a
description by standard colors, "RICH" may change places with "red", and dashes may stand for
blanks. An unknown name is remarked on each time. -/
theorem colorOf_of_parts_standard :
    let palette : Palette Float := standard
    palette.colorOf "dirt grey bogus" = palette.colorOf "dark gray unheard" ∧
      palette.colorOf "red RICH blue" = palette.colorOf "Rich red blue" ∧
      palette.colorOf "light--teal" = palette.colorOf "light teal" ∧
      (palette.colorOf "light bogus").alpha = (Color.mix [palette.lookup "bogus"]).alpha ∧
      (Reading.ofText palette "bogus red, dark bogus").notices =
        [.unknownName "bogus", .unknownName "bogus"] := by
  intro palette
  obtain ⟨hparts, hgaps, hrewordings, halpha, hnotices⟩ := colorOf_of_parts
  have hunknown (name : String) (h : (palette.get? name).isNone = true) :
      palette.get? name = none := Option.isNone_iff_eq_none.mp h
  refine ⟨hrewordings Float palette _ _ ?_, hparts Float palette palette _ _ ?_ ?_, ?_, ?_, ?_⟩
  · have hdirt : Rewording palette ([] ++ "dirt" :: ["grey", "bogus"])
        ([] ++ "dark" :: ["grey", "bogus"]) :=
      .canonical (by decide +kernel : Adjective.ofWord? "dirt" = some ⟨.dark, 0⟩)
    have hgrey : Rewording palette (["dark"] ++ "grey" :: ["bogus"])
        (["dark"] ++ "gray" :: ["bogus"]) :=
      .resolve (by decide +kernel) (by decide +kernel) (by decide +kernel)
    have hbogus : Rewording palette (["dark", "gray"] ++ "bogus" :: [])
        (["dark", "gray"] ++ "unheard" :: []) :=
      .misname (by decide +kernel) (hunknown _ (by decide +kernel)) (by decide +kernel)
        (hunknown _ (by decide +kernel))
    have hfrom : words "dirt grey bogus" = ["dirt", "grey", "bogus"] := by decide +kernel
    have hto : words "dark gray unheard" = ["dark", "gray", "unheard"] := by decide +kernel
    rw [hfrom, hto]
    exact ((Relation.EqvGen.rel _ _ hdirt).trans _ _ _ (.rel _ _ hgrey)).trans _ _ _
      (.rel _ _ hbogus)
  · decide +kernel
  · have hnames : namesOf (words "red RICH blue") = namesOf (words "Rich red blue") := by
      decide +kernel
    rw [hnames]
  · exact (hgaps Float palette "light" "teal" "--" " " (by decide) (by decide)).2.2 (by decide)
      (by decide)
  · have hnames : namesOf (words "light bogus") = ["bogus"] := by decide +kernel
    rw [halpha Float palette, hnames]
    rfl
  · rw [hnotices Float palette]
    decide +kernel

end Palette

end ColorWords
