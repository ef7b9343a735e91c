import ColorWords.Palette.Standard
import ColorWords.Proofs.Color.Mean
import ColorWords.Proofs.Description.Reading
import ColorWords.Proofs.Scalar.Real
import ColorWords.Proofs.Text.Words

/-!
# What a description depends on

In exact arithmetic only the sums of the two changes and the colors named matter. So neither the
order of words nor the choice of adjectives with the same sums changes the color described.
-/

namespace ColorWords

open Scalar

namespace Description

/-- A change that words make in hundredths, being the sum of those of the adjectives among
them. -/
def totalChange (change : Adjective → ℤ) (listed : List String) : ℤ :=
  ((adjectivesOf listed).map change).sum

/-- The changes of words in a row add up. -/
theorem totalChange_append (change : Adjective → ℤ) (x y : List String) :
    totalChange change (x ++ y) = totalChange change x + totalChange change y := by
  simp [totalChange, adjectivesOf]

/-- The order of words does not matter for their changes. -/
theorem totalChange_eq_of_perm (change : Adjective → ℤ) {x y : List String} (h : x.Perm y) :
    totalChange change x = totalChange change y :=
  ((h.filterMap _).map _).sum_eq

end Description

namespace Palette

open Description

variable {K : Type} [Field K] [LinearOrder K] [IsStrictOrderedRing K] [GamutMap K]

/-- In exact arithmetic the color described depends on the total changes and the colors named. -/
theorem colorOf_congr (palette : Palette K) {x y : String}
    (hcolors : ((namesOf (words x)).map palette.lookup).Perm
      ((namesOf (words y)).map palette.lookup))
    (hlightness : totalChange Adjective.lightness (words x) =
      totalChange Adjective.lightness (words y))
    (hsaturation : totalChange Adjective.saturation (words x) =
      totalChange Adjective.saturation (words y)) :
    palette.colorOf x = palette.colorOf y := by
  unfold totalChange at hlightness hsaturation
  unfold colorOf Reading.color Reading.base
  simp only [Reading.ofText_eq_parts, Accumulator.total_ofList_ofPercent, hlightness, hsaturation,
    Color.mix_eq_of_perm hcolors]

/-- In exact arithmetic two texts describe the same color if they name the same colors in any
order and their adjectives have the same total changes. So the words may come in any order, and
adjectives may be replaced by others with the same total changes. -/
theorem colorOf_rearranged (palette : Palette K) (x y : String) :
    (((namesOf (words x)).map palette.lookup).Perm ((namesOf (words y)).map palette.lookup) →
      totalChange Adjective.lightness (words x) = totalChange Adjective.lightness (words y) →
      totalChange Adjective.saturation (words x) = totalChange Adjective.saturation (words y) →
      palette.colorOf x = palette.colorOf y) ∧
    ((words x).Perm (words y) → palette.colorOf x = palette.colorOf y) ∧
    ∀ before replaced replacing after : List String,
      words x = before ++ replaced ++ after → words y = before ++ replacing ++ after →
      (∀ word ∈ replaced ++ replacing, (Adjective.ofWord? word).isSome) →
      totalChange Adjective.lightness replaced = totalChange Adjective.lightness replacing →
      totalChange Adjective.saturation replaced = totalChange Adjective.saturation replacing →
      palette.colorOf x = palette.colorOf y := by
  refine ⟨palette.colorOf_congr, fun hwords => ?_, ?_⟩
  · exact palette.colorOf_congr ((hwords.filter _).map _) (totalChange_eq_of_perm _ hwords)
      (totalChange_eq_of_perm _ hwords)
  · intro before replaced replacing after hx hy hadjectives hlightness hsaturation
    rw [List.forall_mem_append] at hadjectives
    refine palette.colorOf_congr ?_ ?_ ?_
    · rw [hx, hy, namesOf_append, namesOf_append, namesOf_append, namesOf_append,
        namesOf_eq_nil hadjectives.1, namesOf_eq_nil hadjectives.2]
    · simp only [hx, hy, totalChange_append, hlightness]
    · simp only [hx, hy, totalChange_append, hsaturation]

/-- Over the reals, two standard colors may change places while "light" makes up for "lighter"
and "dark", all words of a description may change places, and "darkest" may stand for "dark
darker". -/
theorem colorOf_rearranged_standard :
    let palette : Palette ℝ := standard
    palette.colorOf "dark red, lighter blue" = palette.colorOf "blue light red" ∧
      palette.colorOf "rich gray-green" = palette.colorOf "green rich gray" ∧
      palette.colorOf "pale dark darker sky" = palette.colorOf "pale darkest sky" := by
  intro palette
  have hnames : (namesOf (words "dark red, lighter blue")).Perm
      (namesOf (words "blue light red")) := by decide +kernel
  refine ⟨?_, ?_, ?_⟩
  · exact (palette.colorOf_rearranged _ _).1 (hnames.map _) (by decide +kernel) (by decide +kernel)
  · exact (palette.colorOf_rearranged _ _).2.1 (by decide +kernel)
  · exact (palette.colorOf_rearranged _ _).2.2 ["pale"] ["dark", "darker"] ["darkest"] ["sky"]
      (by decide +kernel) (by decide +kernel) (by decide +kernel) (by decide +kernel)
      (by decide +kernel)

end Palette

end ColorWords
