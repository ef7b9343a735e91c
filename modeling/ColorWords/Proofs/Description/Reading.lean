import ColorWords.Description
import Mathlib.Data.List.Basic

/-!
# What a reading collects

The words of a description fall into adjectives and names. A reading adds up the changes of the
adjectives and collects the colors of the names, each in order and independently of how they are
interleaved.
-/

namespace ColorWords

open Scalar

namespace Description

/-! ## Adjectives and names -/

/-- The adjectives among words. -/
def adjectivesOf (listed : List String) : List Adjective := listed.filterMap Adjective.ofWord?

/-- The words that read as no adjective. -/
def namesOf (listed : List String) : List String :=
  listed.filter fun word => (Adjective.ofWord? word).isNone

/-- The adjectives among words in a row come in a row. -/
theorem adjectivesOf_append (x y : List String) :
    adjectivesOf (x ++ y) = adjectivesOf x ++ adjectivesOf y := List.filterMap_append

/-- The names among words in a row come in a row. -/
theorem namesOf_append (x y : List String) : namesOf (x ++ y) = namesOf x ++ namesOf y :=
  List.filter_append ..

/-- There are no names among adjectives. -/
theorem namesOf_eq_nil {listed : List String}
    (h : ∀ word ∈ listed, (Adjective.ofWord? word).isSome) : namesOf listed = [] := by
  refine List.filter_eq_nil_iff.mpr fun word hword => ?_
  rw [← Option.not_isSome, h word hword]
  decide

/-- Words that read as no adjective are names, and there are no adjectives among them. -/
theorem parts_of_names {listed : List String}
    (h : ∀ word ∈ listed, Adjective.ofWord? word = none) :
    adjectivesOf listed = [] ∧ namesOf listed = listed := by
  refine ⟨List.filterMap_eq_nil_iff.mpr h, List.filter_eq_self.mpr fun word hword => ?_⟩
  rw [h word hword]
  rfl

end Description

namespace Reading

open Description

variable {α : Type} [Scalar α]

/-! ## Reading words -/

/-- Words are added to a reading by what they are: the changes of adjectives, the colors of
names, and the names that are unknown. -/
theorem foldl_addWord (palette : Palette α) (listed : List String) (reading : Reading α) :
    listed.foldl (addWord palette) reading =
      { lightness := ((adjectivesOf listed).map fun a => ofPercent a.lightness).foldl .add
          reading.lightness
        saturation := ((adjectivesOf listed).map fun a => ofPercent a.saturation).foldl .add
          reading.saturation
        colors := reading.colors ++ ((namesOf listed).map palette.lookup).toArray
        unknown := reading.unknown ++
          ((namesOf listed).filter fun name => (palette.get? name).isNone).toArray } := by
  induction listed generalizing reading with
  | nil => simp [adjectivesOf, namesOf]
  | cons word rest ih =>
    rw [List.foldl_cons, ih]
    unfold addWord
    cases hadjective : Adjective.ofWord? word with
    | some adjective => simp [adjectivesOf, namesOf, hadjective, addAdjective]
    | none =>
      cases hcolor : palette.get? word <;>
        simp [adjectivesOf, namesOf, hadjective, hcolor, Palette.lookup]

/-- A text is read by the adjectives and the names among its words. -/
theorem ofText_eq_parts (palette : Palette α) (text : String) :
    ofText palette text =
      { lightness := .ofList ((adjectivesOf (words text)).map fun a => ofPercent a.lightness)
        saturation := .ofList ((adjectivesOf (words text)).map fun a => ofPercent a.saturation)
        colors := ((namesOf (words text)).map palette.lookup).toArray
        unknown :=
          ((namesOf (words text)).filter fun name => (palette.get? name).isNone).toArray } := by
  rw [ofText, foldl_addWord]
  simp [empty, Accumulator.ofList]

/-- A text is read alike where the same names stand for the same colors. -/
theorem ofText_congr {x y : Palette α} (h : ∀ name, x.get? name = y.get? name) (text : String) :
    ofText x text = ofText y text := by
  have hlookup : x.lookup = y.lookup := funext fun name => by rw [Palette.lookup, h]; rfl
  simp only [ofText_eq_parts, hlookup, h]

end Reading

end ColorWords
