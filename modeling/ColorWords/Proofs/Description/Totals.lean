import ColorWords.Palette.Standard
import ColorWords.Proofs.Description.Reading
import ColorWords.Proofs.FloatSummation
import ColorWords.Proofs.Text.Words

/-!
# The totals of a description in floats

The floats of all changes that adjectives make are multiples of `2 ^ -56`, so that compensated sums
of them are exact. The totals of a description are therefore the exact sums rounded once, whatever
the order of its words, and their signs are those of the exact sums.
-/

namespace ColorWords

open Binary64 Description Scalar

namespace Adjective

/-- The numbers of hundredths that adjectives change lightness or saturation by. -/
def amounts : List ℕ := [0, 10, 15, 20, 25, 30, 40, 45, 60, 65, 70]

/-- Lightness and saturation, which adjectives change. -/
def changes : List (Adjective → ℤ) := [lightness, saturation]

/-- All changes are by one of the amounts. -/
theorem natAbs_change_mem {change : Adjective → ℤ} (hchange : change ∈ changes)
    (adjective : Adjective) : (change adjective).natAbs ∈ amounts := by
  have hall : ∀ family : Family, ∀ tier : Tier, (lightness ⟨family, tier⟩).natAbs ∈ amounts ∧
      (saturation ⟨family, tier⟩).natAbs ∈ amounts := by
    intro family
    cases family <;> decide
  obtain ⟨hlightness, hsaturation⟩ := hall adjective.family adjective.tier
  rcases List.mem_pair.mp hchange with rfl | rfl
  · exact hlightness
  · exact hsaturation

/-- What holds of all amounts and their negatives holds of all changes by an amount. -/
theorem of_natAbs_mem_amounts {p : ℤ → Prop} (h : ∀ n ∈ amounts, p n ∧ p (-n)) {z : ℤ}
    (hz : z.natAbs ∈ amounts) : p z := by
  rcases Int.natAbs_eq z with hpositive | hnegative
  · exact hpositive ▸ (h _ hz).1
  · exact hnegative ▸ (h _ hz).2

end Adjective

/-! ## Hundredths in floats -/

namespace Binary64

open Adjective

/-- How far the float nearest to a number of hundredths is beyond it, in fifths of `2 ^ -55`. -/
def excess (z : ℤ) : ℤ :=
  z.sign * match z.natAbs with
    | 10 => 1
    | 15 => -1
    | 20 => 2
    | 30 => -2
    | 40 => 4
    | 45 => 2
    | 60 => -4
    | 65 => 4
    | 70 => -8
    | _ => 0

/-- The float nearest to a number of hundredths, in units of `2 ^ -56`. -/
def units (z : ℤ) : ℤ := (z * 2 ^ 56 + 40 * excess z) / 100

/-- The float of an amount has as many units as the hundredths have and its excess makes. -/
theorem hundred_mul_units {z : ℤ} (hz : z.natAbs ∈ amounts) :
    100 * units z = z * 2 ^ 56 + 40 * excess z :=
  of_natAbs_mem_amounts (p := fun z => 100 * units z = z * 2 ^ 56 + 40 * excess z) (by decide) hz

/-- The float of an amount has no more units than one has. -/
theorem abs_units_le {z : ℤ} (hz : z.natAbs ∈ amounts) : |units z| ≤ 2 ^ 56 :=
  of_natAbs_mem_amounts (p := fun z => |units z| ≤ 2 ^ 56) (by decide) hz

/-- The keys of the floats of all amounts but zero. -/
theorem floatKey?_amounts : ∀ n ∈ amounts, n = 0 ∨ ∃ shift ∈ List.range 4,
    floatKey? (ofPercent (n : ℤ)) =
        some (toLex (1, toLex ((shift : ℤ) - 56, units n / 2 ^ shift))) ∧
      2 ^ shift ∣ units n := by
  decide +kernel

/-- The float of an amount has its number of units. -/
theorem hasValue_ofPercent_natCast {n : ℕ} (hn : n ∈ amounts) :
    HasValue (ofPercent (n : ℤ)) (units n * 2 ^ (-56 : ℤ)) := by
  rcases floatKey?_amounts n hn with rfl | ⟨shift, -, hkey, m, hm⟩
  · have hkey : floatKey? (ofPercent ((0 : ℕ) : ℤ)) = some (toLex (0, toLex (0, 0))) := by
      decide +kernel
    have hunits : units ((0 : ℕ) : ℤ) = 0 := by decide
    rw [hunits, Int.cast_zero, zero_mul]
    exact (hasValue_of_floatKey?_zero hkey).1
  · have hvalue := hasValue_of_floatKey? hkey
    rw [hm, Int.mul_ediv_cancel_left _ (by positivity)] at hvalue
    have hscaled : ((2 ^ shift * m : ℤ) : ℝ) * 2 ^ (-56 : ℤ) = m * 2 ^ ((shift : ℤ) - 56) := by
      rw [Int.cast_mul, Int.cast_pow, Int.cast_ofNat, ← zpow_natCast, mul_right_comm,
        ← zpow_add₀ two_ne_zero, mul_comm, Int.sub_eq_add_neg]
    rwa [hm, hscaled]

/-- A negative number of hundredths is the negated float. -/
theorem ofPercent_neg {α : Type} [Scalar α] {n : ℕ} (hn : 0 < n) :
    (ofPercent (-n : ℤ) : α) = -ofPercent (n : ℤ) := by
  obtain ⟨n, rfl⟩ := Nat.exists_eq_succ_of_ne_zero hn.ne'
  rfl

/-- The float of an amount or its negative has its number of units. -/
theorem hasValue_ofPercent {z : ℤ} (hz : z.natAbs ∈ amounts) :
    HasValue (ofPercent z) (units z * 2 ^ (-56 : ℤ)) := by
  refine of_natAbs_mem_amounts (p := fun z => HasValue (ofPercent z) (units z * 2 ^ (-56 : ℤ)))
    (fun n hn => ?_) hz
  have hpositive := hasValue_ofPercent_natCast hn
  refine ⟨hpositive, ?_⟩
  rcases Nat.eq_zero_or_pos n with rfl | hpos
  · exact hpositive
  · have hopposite : ∀ n ∈ amounts, units (-n) = -units n := by decide
    rw [ofPercent_neg hpos, hopposite n hn, Int.cast_neg, neg_mul]
    exact hpositive.neg

/-- The float of an amount denotes the hundredths and its excess. -/
theorem denoted_ofPercent {z : ℤ} (hz : z.natAbs ∈ amounts) :
    denoted (ofPercent z) = z / 100 + excess z / (5 * 2 ^ 55) := by
  have hunits : (100 * units z : ℝ) = z * 2 ^ 56 + 40 * excess z := by
    exact_mod_cast hundred_mul_units hz
  have hvalue : denoted (ofPercent z) = units z * 2 ^ (-56 : ℤ) := (hasValue_ofPercent hz).2
  rw [hvalue, zpow_neg, ← div_eq_mul_inv]
  norm_num at hunits ⊢
  linarith

/-- The float of an amount is a term that fits into exact sums. -/
theorem exists_hasValue_ofPercent {z : ℤ} (hz : z.natAbs ∈ amounts) :
    ∃ q, HasValue (ofPercent z) q ∧ q ∈ grid (-56) ∧ |q| ≤ 1 := by
  refine ⟨_, hasValue_ofPercent hz, mem_grid.mpr ⟨units z, rfl⟩, ?_⟩
  have hle : |(units z : ℝ)| ≤ 2 ^ 56 := by exact_mod_cast abs_units_le hz
  have hpow : (0 : ℝ) < 2 ^ (-56 : ℤ) := zpow_pos two_pos _
  rw [abs_mul, abs_of_pos hpow]
  norm_num at hle ⊢
  linarith

end Binary64

/-! ## Totals -/

namespace Adjective

/-- The exact sum of the floats that adjectives change something by. -/
noncomputable def exactTotal (change : Adjective → ℤ) (adjectives : List Adjective) : ℝ :=
  (adjectives.map fun adjective => denoted (ofPercent (change adjective))).sum

/-- The order of adjectives does not matter for the exact sum. -/
theorem exactTotal_eq_of_perm (change : Adjective → ℤ) {x y : List Adjective} (h : x.Perm y) :
    exactTotal change x = exactTotal change y :=
  (h.map _).sum_eq

/-- The exact sum is that of the hundredths and of what the floats are beyond them. -/
theorem exactTotal_eq {change : Adjective → ℤ} (hchange : change ∈ changes)
    (adjectives : List Adjective) :
    exactTotal change adjectives = (adjectives.map change).sum / 100 +
      (adjectives.map fun adjective => excess (change adjective)).sum / (5 * 2 ^ 55) := by
  induction adjectives with
  | nil => simp [exactTotal]
  | cons adjective rest ih =>
    rw [exactTotal] at ih ⊢
    rw [List.map_cons, List.sum_cons, ih, denoted_ofPercent (natAbs_change_mem hchange adjective)]
    push_cast [List.map_cons, List.sum_cons]
    ring

end Adjective

/-- Running sums of the floats of adjectives are exact, unless there are too many of them. -/
theorem Accumulator.isExact_ofPercent {change : Adjective → ℤ}
    (hchange : change ∈ Adjective.changes) {adjectives : List Adjective}
    (hlength : adjectives.length ≤ 2 ^ 25) :
    (ofList (adjectives.map fun adjective => ofPercent (change adjective))).IsExact
      (Adjective.exactTotal change adjectives) := by
  have hterms : ∀ term ∈ adjectives.map fun adjective => (ofPercent (change adjective) : Float),
      ∃ q, HasValue term q ∧ q ∈ grid (-56) ∧ |q| ≤ 1 :=
    List.forall_mem_map.mpr fun adjective _ =>
      exists_hasValue_ofPercent (Adjective.natAbs_change_mem hchange adjective)
  have hexact := isExact_ofList hterms (by rwa [List.length_map])
  rwa [List.map_map] at hexact

namespace Reading

/-- The running sums of a text are exact, unless there are too many adjectives among its words. -/
theorem isExact_ofText (palette : Palette Float) {text : String}
    (hlength : (adjectivesOf (words text)).length ≤ 2 ^ 25) :
    (ofText palette text).lightness.IsExact
        (Adjective.exactTotal Adjective.lightness (adjectivesOf (words text))) ∧
      (ofText palette text).saturation.IsExact
        (Adjective.exactTotal Adjective.saturation (adjectivesOf (words text))) := by
  rw [ofText_eq_parts]
  exact ⟨Accumulator.isExact_ofPercent (List.mem_pair.mpr (Or.inl rfl)) hlength,
    Accumulator.isExact_ofPercent (List.mem_pair.mpr (Or.inr rfl)) hlength⟩

/-- In floats, sum and carry of the changes of up to `2 ^ 20` adjectives make up the exact sum of
their floats, and the total is that sum rounded to 53 significant bits, ties to even. So the total
has the sign of the exact sum and does not depend on the order. In particular, texts with the same
words in any order have the same totals bit for bit, and a color is changed alike by both. -/
theorem totals_exact :
    (∀ change ∈ Adjective.changes, ∀ adjectives : List Adjective, adjectives.length ≤ 2 ^ 20 →
      let acc : Accumulator Float :=
        .ofList (adjectives.map fun adjective => ofPercent (change adjective))
      let exact := Adjective.exactTotal change adjectives
      (∃ s c, HasValue acc.sum s ∧ HasValue acc.carry c ∧ s + c = exact) ∧
        (∃ r, HasValue acc.total r ∧ RoundsTo exact r) ∧
        (0.0 < acc.total ↔ 0 < exact) ∧ (acc.total < 0.0 ↔ exact < 0) ∧
        ∀ others : List Adjective, adjectives.Perm others →
          (Accumulator.ofList (others.map fun other => ofPercent (change other))).total =
            acc.total) ∧
    ∀ (palette : Palette Float) (x y : String), (words x).Perm (words y) →
      (adjectivesOf (words x)).length ≤ 2 ^ 20 →
      (ofText palette y).lightness.total = (ofText palette x).lightness.total ∧
        (ofText palette y).saturation.total = (ofText palette x).saturation.total ∧
        palette.colorOf y =
          { ofText palette x with colors := (ofText palette y).colors : Reading Float }.color := by
  have hshort {n : ℕ} (hn : n ≤ 2 ^ 20) : n ≤ 2 ^ 25 := hn.trans (by norm_num)
  refine ⟨?_, ?_⟩
  · intro change hchange adjectives hlength acc exact
    have hacc : acc.IsExact exact := Accumulator.isExact_ofPercent hchange (hshort hlength)
    refine ⟨hacc.parts, hacc.total, hacc.zero_lt_total_iff, hacc.total_lt_zero_iff, ?_⟩
    intro others hperm
    have hothers := Accumulator.isExact_ofPercent hchange
      (hshort (hperm.length_eq.symm.trans_le hlength))
    rw [← Adjective.exactTotal_eq_of_perm change hperm] at hothers
    exact hothers.total_eq hacc
  · intro palette x y hwords hlength
    have hperm : (adjectivesOf (words x)).Perm (adjectivesOf (words y)) := hwords.filterMap _
    have hx := isExact_ofText palette (hshort hlength)
    have hy := isExact_ofText palette (hshort (hperm.length_eq.symm.trans_le hlength))
    rw [← Adjective.exactTotal_eq_of_perm _ hperm, ← Adjective.exactTotal_eq_of_perm _ hperm] at hy
    have hlightness := hy.1.total_eq hx.1
    have hsaturation := hy.2.total_eq hx.2
    refine ⟨hlightness, hsaturation, ?_⟩
    rw [Palette.colorOf, color, color, hlightness, hsaturation]
    rfl

/-- In a description by standard colors, the words may come in any order. "richest" and "richer"
outweigh "dullmost" by `2 ^ -54`, so that their total is positive. -/
theorem totals_exact_standard :
    let palette : Palette Float := .standard
    let x := ofText palette "richest red, richer dullmost sky"
    let y := ofText palette "dullmost sky richer red richest"
    let adjectives : List Adjective := [⟨.rich, 2⟩, ⟨.rich, 1⟩, ⟨.dull, 3⟩]
    let acc : Accumulator Float :=
      .ofList (adjectives.map fun adjective => ofPercent adjective.saturation)
    y.lightness.total = x.lightness.total ∧ y.saturation.total = x.saturation.total ∧
      Adjective.exactTotal Adjective.saturation adjectives = 2 ^ (-54 : ℤ) ∧
      0.0 < acc.total := by
  intro palette x y adjectives acc
  have hwords : (words "richest red, richer dullmost sky").Perm
      (words "dullmost sky richer red richest") := by decide +kernel
  have htexts := totals_exact.2 palette _ _ hwords (by decide +kernel)
  have hsaturation : Adjective.saturation ∈ Adjective.changes := List.mem_pair.mpr (Or.inr rfl)
  have hsum : (adjectives.map Adjective.saturation).sum = 0 ∧
      (adjectives.map fun adjective => excess adjective.saturation).sum = 10 := by decide
  have hexact : Adjective.exactTotal Adjective.saturation adjectives = 2 ^ (-54 : ℤ) := by
    rw [Adjective.exactTotal_eq hsaturation, hsum.1, hsum.2]
    norm_num
  obtain ⟨-, -, hpositive, -⟩ := totals_exact.1 _ hsaturation adjectives (by decide)
  refine ⟨htexts.1, htexts.2.1, hexact, hpositive.mpr ?_⟩
  rw [hexact]
  positivity

end Reading

end ColorWords
