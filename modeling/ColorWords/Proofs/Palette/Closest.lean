import ColorWords.Proofs.Color.FloatDistance
import ColorWords.Proofs.Least
import ColorWords.Proofs.Palette.Lookup

/-!
# Closest names

The closest name is found by scanning the named colors in the order of their definition. All
differences between normal colors are below infinity, so the scan passes over no named color, and
it only finds nothing in a palette without any. Aliases are not scanned, and alpha is not compared.
-/

namespace ColorWords

open Scalar

/-- The difference between normal colors is below infinity. -/
theorem Color.IsNormal.belowInfinity_difference {c d : Color Float} (hc : c.IsNormal)
    (hd : d.IsNormal) : belowInfinity (c.difference d) = true := by
  have hlt : (2.0 : Float) ≤ 3.0 := by decide
  have hrange : Within 0.0 2.0 (c.difference d) := hc.within_distance hd
  exact Binary64.belowInfinity_of_within ⟨hrange.1, OrderedScalar.le_trans hrange.2 hlt⟩

namespace Palette

/-- No named color is closer than the one at this position, and those before it are farther. -/
def IsFirstClosest {α : Type} [Scalar α] [ColorModel α] (palette : Palette α)
    (c : Color α) (i : Fin palette.entries.length) : Prop :=
  let difference (j : Fin palette.entries.length) : α := c.difference (palette.entries.get j).2
  ∀ j, difference i ≤ difference j ∧ (j < i → difference i < difference j)

section Scan

variable {α : Type} [Scalar α] [OrderedScalar α] [ColorModel α] {palette : Palette α} {c : Color α}
  (hbelow : ∀ entry ∈ palette.entries, belowInfinity (c.difference entry.2) = true)

include hbelow

/-- If all differences are below infinity, there is no closest name only without named colors. -/
theorem closestName?_eq_none_iff : palette.closestName? c = none ↔ palette.entries = [] := by
  rw [closestName?, Option.map_eq_none_iff, leastIndex?_eq_none_iff]
  refine ⟨fun hnone => ?_, fun hempty i => ?_⟩
  · by_contra hentries
    have hfirst := hnone ⟨0, List.length_pos_iff.mpr hentries⟩
    rw [hbelow _ (List.get_mem _ _)] at hfirst
    cases hfirst
  · rw [hempty] at i
    exact i.elim0

/-- If all differences are below infinity, the closest name is that of the first named color with
the least difference. -/
theorem closestName?_eq_some_iff (name : String) :
    palette.closestName? c = some name ↔
      ∃ i, (palette.entries.get i).1 = name ∧ palette.IsFirstClosest c i := by
  rw [closestName?, Option.map_eq_some_iff]
  constructor
  · rintro ⟨⟨i, least⟩, hscan, hname⟩
    obtain ⟨-, -, hmin⟩ := (leastIndex?_eq_some_iff _ i least).mp hscan
    exact ⟨i, hname, fun j => hmin j (hbelow _ (List.get_mem _ j))⟩
  · rintro ⟨i, hname, hfirst⟩
    refine ⟨(i, _), (leastIndex?_eq_some_iff _ i _).mpr ⟨rfl, ?_, fun j _ => hfirst j⟩, hname⟩
    exact hbelow _ (List.get_mem _ i)

/-- If all differences are below infinity and there are named colors, one of them has the closest
name. -/
theorem exists_closestName? (hentries : palette.entries ≠ []) :
    ∃ i, palette.closestName? c = some (palette.entries.get i).1 ∧ palette.IsFirstClosest c i := by
  obtain ⟨name, hname⟩ :=
    Option.ne_none_iff_exists'.mp ((closestName?_eq_none_iff hbelow).not.mpr hentries)
  obtain ⟨i, rfl, hfirst⟩ := (closestName?_eq_some_iff hbelow name).mp hname
  exact ⟨i, hname, hfirst⟩

end Scan

/-- Among normal colors there is a closest name unless there are no named colors, and it is the name
of the first named color with the least difference, whatever its alpha, and never an alias. This is
what a scan of any scores does: it finds the first least one below infinity, passing over scores
that are not numbers, and finds nothing exactly if no score is below infinity. -/
theorem closestName?_is_first_closest :
    (∀ (palette : Palette Float) (c : Color Float), (∀ entry ∈ palette.entries, entry.2.IsNormal) →
      c.IsNormal →
      (palette.closestName? c = none ↔ palette.entries = []) ∧
      (∀ name, palette.closestName? c = some name ↔
        ∃ i, (palette.entries.get i).1 = name ∧ palette.IsFirstClosest c i) ∧
      ∀ synonym target, (synonym, target) ∈ palette.aliases →
        palette.closestName? c ≠ some synonym) ∧
    ∀ (n : ℕ) (score : Fin n → Float),
      (leastIndex? n score = none ↔ ∀ i, ¬ score i < 1.0 / 0.0) ∧
      ∀ i least, leastIndex? n score = some (i, least) ↔
        least = score i ∧ score i < 1.0 / 0.0 ∧
          ∀ j, score j < 1.0 / 0.0 → score i ≤ score j ∧ (j < i → score i < score j) := by
  have hinfinity (x : Float) : belowInfinity x = true ↔ x < 1.0 / 0.0 := decide_eq_true_iff
  refine ⟨fun palette c hpalette hc => ?_, fun n score => ⟨?_, fun i least => ?_⟩⟩
  · have hbelow : ∀ entry ∈ palette.entries, belowInfinity (c.difference entry.2) = true :=
      fun entry hentry => hc.belowInfinity_difference (hpalette entry hentry)
    refine ⟨closestName?_eq_none_iff hbelow, closestName?_eq_some_iff hbelow,
      fun synonym target hmem hname => ?_⟩
    obtain ⟨i, hentry, -⟩ := (closestName?_eq_some_iff hbelow synonym).mp hname
    exact palette.fst_ne_of_mem_aliases hmem (List.get_mem _ i) hentry
  · rw [leastIndex?_eq_none_iff]
    exact forall_congr' fun i => by rw [← hinfinity, Bool.not_eq_true]
  · rw [leastIndex?_eq_some_iff]
    simp only [hinfinity]

/-- Coal and two colors without alpha, which are the same, and an alias of the second one. -/
def shades : Palette Float where
  entries := [("coal", ⟨⟨0.2, 0.0, 0.0⟩, 1.0⟩), ("clear", ⟨⟨0.0, 0.0, 0.0⟩, 0.0⟩),
    ("void", ⟨⟨0.0, 0.0, 0.0⟩, 0.0⟩)]
  aliases := [("air", "clear")]
  valid := by decide

/-- A dark color is closest to the first of the two colors without alpha. In a scan, scores that are
not numbers or infinite are passed over, and so is the later one of two equal scores. -/
theorem closestName?_is_first_closest_shades :
    let c : Color Float := ⟨⟨0.05, 0.0, 0.0⟩, 1.0⟩
    let score : Fin 5 → Float := ![0.0 / 0.0, 1.0 / 0.0, 2.0, 0.0 / 0.0, 2.0]
    (∀ entry ∈ shades.entries, entry.2.IsNormal) ∧ c.IsNormal ∧
      shades.closestName? c = some "clear" ∧ shades.closestName? c ≠ some "air" ∧
      leastIndex? 5 score = some (2, 2.0) := by
  intro c score
  have hnormal : ∀ entry ∈ shades.entries, entry.2.IsNormal := by
    simp only [shades, List.forall_mem_cons]
    refine ⟨?_, ?_, ?_, List.forall_mem_nil _⟩ <;> constructor <;> constructor <;> decide +kernel
  have hc : c.IsNormal := by constructor <;> constructor <;> decide +kernel
  obtain ⟨hpalettes, hscans⟩ := closestName?_is_first_closest
  obtain ⟨-, hsome, hsynonym⟩ := hpalettes shades c hnormal hc
  have hfirst : shades.IsFirstClosest c ⟨1, by decide⟩ := by
    unfold IsFirstClosest
    decide +kernel
  have hscan : score 2 < 1.0 / 0.0 ∧
      ∀ j, score j < 1.0 / 0.0 → score 2 ≤ score j ∧ (j < 2 → score 2 < score j) := by
    decide +kernel
  exact ⟨hnormal, hc, (hsome "clear").mpr ⟨_, rfl, hfirst⟩,
    hsynonym "air" "clear" (List.mem_singleton.mpr rfl),
    ((hscans 5 score).2 2 2.0).mpr ⟨rfl, hscan⟩⟩

end Palette

end ColorWords
