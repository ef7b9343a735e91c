import ColorWords.Proofs.Palette.Build
import ColorWords.Proofs.Palette.Order
import ColorWords.Proofs.Scalar.Binary64Order
import ColorWords.Proofs.Text.Ascii

/-!
# The orders of names are unique

Comparing colors by any key under a total order and then names leads to an order of named colors
in which only equal names tie. A palette uses no name twice, so sorting its named colors has one
possible result, however they were listed. Nothing that is computed from the sorted names and
from lookups depends on the order in which a palette was put together.
-/

namespace ColorWords

open Description

namespace Palette

variable {α : Type}

/-! ## Sorting by colors and then by names -/

/-- The first named color has its place before the second one, by color and, where colors tie,
by the bytes of the names. -/
def ComesBefore (order : Color α → Color α → Ordering) (x y : String × Color α) : Prop :=
  order x.2 y.2 = .lt ∨ order x.2 y.2 = .eq ∧ Text.bytes x.1 < Text.bytes y.1

/-- Compare named colors by color and then by name. -/
def compareNamed (order : Color α → Color α → Ordering) (x y : String × Color α) : Ordering :=
  (order x.2 y.2).then (compare x.1 y.1)

/-- Only named colors of one name tie. -/
theorem fst_eq_of_compareNamed_eq {order : Color α → Color α → Ordering} {x y : String × Color α}
    (h : compareNamed order x y = .eq) : x.1 = y.1 :=
  Std.LawfulEqOrd.eq_of_compare (Ordering.then_eq_eq.mp h).2

section Sorting

variable (order : Color α → Color α → Ordering) [Std.TransCmp order]
  {entries others : List (String × Color α)}

/-- Comparing by color and then by name is a total order if comparing colors is. -/
instance instTransCmpCompareNamed : Std.TransCmp (compareNamed order) :=
  have := transCmp_comap order (Prod.snd : String × Color α → Color α)
  have := transCmp_comap (compare : String → String → Ordering)
    (Prod.fst : String × Color α → String)
  inferInstanceAs (Std.TransCmp (compareLex (fun x y : String × Color α => order x.2 y.2)
    fun x y => compare x.1 y.1))

/-- Sorting leaves nothing before what is less. -/
theorem pairwise_sortBy (entries : List (String × Color α)) :
    (sortBy order entries).Pairwise fun x y => (compareNamed order x y).isLE = true :=
  List.pairwise_mergeSort (fun _ _ _ => Std.TransCmp.isLE_trans)
    (fun x y => by
      have hswap : compareNamed order y x = (compareNamed order x y).swap :=
        Std.OrientedCmp.eq_swap
      rw [hswap]
      cases compareNamed order x y <;> rfl) entries

/-- Words that occur once are sorted without ties. -/
theorem pairwise_comesBefore_sortBy (hwords : ∀ entry ∈ entries, IsWord entry.1)
    (hnames : (entries.map Prod.fst).Nodup) :
    (sortBy order entries).Pairwise (ComesBefore order) := by
  have hperm := sortBy_perm order entries
  have hdistinct : (sortBy order entries).Pairwise fun x y => x.1 ≠ y.1 :=
    List.pairwise_map.mp ((hperm.map Prod.fst).nodup_iff.mpr hnames)
  refine ((pairwise_sortBy order entries).and hdistinct).imp_of_mem ?_
  rintro x y hx hy ⟨hle, hne⟩
  have hlt : compareNamed order x y = .lt := by
    cases h : compareNamed order x y with
    | lt => rfl
    | eq => exact absurd (fst_eq_of_compareNamed_eq h) hne
    | gt => simp [h] at hle
  refine (Ordering.then_eq_lt.mp hlt).imp_right fun ⟨htie, hname⟩ => ⟨htie, ?_⟩
  rw [Text.bytes_lt_bytes_iff (hwords x (hperm.mem_iff.mp hx)) (hwords y (hperm.mem_iff.mp hy))]
  exact compare_lt_iff_lt.mp hname

/-- Sorting named colors without duplicate names has the same result in whatever order they are
listed. -/
theorem sortBy_eq_of_perm (hnames : (entries.map Prod.fst).Nodup) (h : entries.Perm others) :
    sortBy order entries = sortBy order others := by
  have hperm := sortBy_perm order entries
  refine List.Perm.eq_of_pairwise ?_ (pairwise_sortBy order entries) (pairwise_sortBy order others)
    (hperm.trans (h.trans (sortBy_perm order others).symm))
  intro x y hx hy hxy hyx
  have hy' : y ∈ entries := h.mem_iff.mpr ((sortBy_perm order others).mem_iff.mp hy)
  exact List.inj_on_of_nodup_map hnames (hperm.mem_iff.mp hx) hy'
    (fst_eq_of_compareNamed_eq (Std.OrientedCmp.isLE_antisymm hxy hyx))

end Sorting

end Palette

/-! ## Comparing by hue -/

section Hue

variable {α : Type} [Scalar α]

open Scalar

/-- Ranks by hue are ordered totally if scalars are: the two kinds of ranks stay apart. -/
instance HueRank.instTransCmpOrder [Std.TransCmp (totalCompare : α → α → Ordering)] :
    Std.TransCmp (HueRank.order : HueRank α → HueRank α → Ordering) where
  eq_swap {x y} := by
    have hswap (a b : α) : totalCompare a b = (totalCompare b a).swap := Std.OrientedCmp.eq_swap
    cases x with
    | gray first =>
      cases y with
      | gray second => exact hswap first second
      | chromatic second => rfl
    | chromatic first =>
      cases y with
      | gray second => rfl
      | chromatic second => exact hswap first second
  isLE_trans {x y z} hxy hyz := by
    have htrans {a b c : α} (hab : (totalCompare a b).isLE = true)
        (hbc : (totalCompare b c).isLE = true) : (totalCompare a c).isLE = true :=
      Std.TransCmp.isLE_trans hab hbc
    -- Nothing after a chromatic rank is gray, so ranks of both kinds compare as their kinds.
    cases x <;> cases y <;> cases z <;> first
      | contradiction
      | rfl
      | exact htrans hxy hyz

variable [ColorModel α]

/-- A gray ranks by its lightness. -/
theorem Color.hueRank_of_isGray {c : Color α} (h : c.isGray = true) :
    c.hueRank = .gray c.lab.lightness := by
  unfold hueRank
  cases c.hue with
  | none => rfl
  | some hue => simp [h]

/-- What is no gray has a hue and ranks by it. -/
theorem Color.exists_hueRank_of_not_isGray {c : Color α} (h : c.isGray = false) :
    ∃ hue, c.hue = some hue ∧ c.hueRank = .chromatic hue := by
  unfold hueRank
  cases hhue : c.hue with
  | none =>
    have hnone : (ColorModel.toPolar c.lab).hue = none := hhue
    simp [isGray, hnone] at h
  | some hue => exact ⟨hue, rfl, by simp [h]⟩

/-- The first named color has its place before the second one in the order by hue. Grays come
first, in ascending lightness, and then all others in ascending hue. -/
inductive Palette.ComesBeforeByHue (x y : String × Color α) : Prop where
  | grays (hx : x.2.isGray = true) (hy : y.2.isGray = true)
      (h : ComesBefore (fun c d => totalCompare c.lab.lightness d.lab.lightness) x y)
  | grayFirst (hx : x.2.isGray = true) (hy : y.2.isGray = false)
  | hues {first second : α} (hx : x.2.isGray = false) (hy : y.2.isGray = false)
      (hfirst : x.2.hue = some first) (hsecond : y.2.hue = some second)
      (h : totalCompare first second = .lt ∨
        totalCompare first second = .eq ∧ Text.bytes x.1 < Text.bytes y.1)

/-- Ranks by hue put grays first. -/
theorem Palette.comesBeforeByHue_of_hueRank {x y : String × Color α}
    (h : ComesBefore (fun c d => c.hueRank.order d.hueRank) x y) : ComesBeforeByHue x y := by
  simp only [ComesBefore] at h
  cases hx : x.2.isGray <;> cases hy : y.2.isGray
  · obtain ⟨first, hfirst, hrank⟩ := Color.exists_hueRank_of_not_isGray hx
    obtain ⟨second, hsecond, hrank'⟩ := Color.exists_hueRank_of_not_isGray hy
    rw [hrank, hrank'] at h
    exact .hues hx hy hfirst hsecond h
  · obtain ⟨first, hfirst, hrank⟩ := Color.exists_hueRank_of_not_isGray hx
    rw [hrank, Color.hueRank_of_isGray hy] at h
    simp [HueRank.order] at h
  · exact .grayFirst hx hy
  · rw [Color.hueRank_of_isGray hx, Color.hueRank_of_isGray hy] at h
    exact .grays hx hy h

end Hue

end ColorWords
