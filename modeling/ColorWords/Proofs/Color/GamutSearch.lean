import ColorWords.Proofs.Color.Gamut
import ColorWords.Proofs.Scalar.Real

/-!
# The search for chroma

In exact arithmetic every round of the search halves its bracket. The chroma of a normalized color
is less than one, so the bracket is narrow after 13 rounds, whatever the conversions and the
difference of colors are. At the head of each round the bracket encloses a crossing of the just
noticeable difference: clipping moves the color at the upper end noticeably, and the color at the
lower end is gray, in gamut, or not moved noticeably. The clipped color at hand belongs to one of
the two ends, so a search that runs to its end returns the clipped color at a chroma no further
than the tolerance from both.
-/

namespace ColorWords

open Scalar

/-- Polar form measures chroma by the distance from the gray axis, or as less than that. -/
def MeasuresChroma (K : Type) [Field K] [LinearOrder K] [ColorModel K] : Prop :=
  ∀ c : Lab K, 0 ≤ (ColorModel.toPolar c).chroma ∧
    (ColorModel.toPolar c).chroma ^ 2 ≤ c.a ^ 2 + c.b ^ 2

/-- The polar form of the library measures chroma. -/
theorem measuresChroma_real : MeasuresChroma ℝ := by
  intro c
  change 0 ≤ c.toPolar.chroma ∧ c.toPolar.chroma ^ 2 ≤ c.a ^ 2 + c.b ^ 2
  unfold Lab.toPolar
  split
  · norm_num
    positivity
  · change 0 ≤ √(c.a * c.a + c.b * c.b) ∧ √(c.a * c.a + c.b * c.b) ^ 2 ≤ c.a ^ 2 + c.b ^ 2
    rw [Real.sq_sqrt (by nlinarith [mul_self_nonneg c.a, mul_self_nonneg c.b])]
    exact ⟨Real.sqrt_nonneg _, by nlinarith⟩

namespace Gamut

variable {K : Type} [Field K] [LinearOrder K] [ColorModel K]

/-! ## Chroma values -/

/-- The color with the lightness and hue of the given one and another chroma. -/
def colorAt (c : Lab K) (chroma : K) : Lab K :=
  ColorModel.ofPolar { ColorModel.toPolar c with chroma := chroma }

/-- The sRGB coordinates at a chroma. Those at its own chroma are the ones of the color itself. -/
def rgbAt (c : Lab K) (chroma : K) : RGB K :=
  if chroma = (ColorModel.toPolar c).chroma then ColorModel.toRGB c
  else ColorModel.toRGB (colorAt c chroma)

/-- How far clipping moves the color at a chroma. -/
def differenceAt (c : Lab K) (chroma : K) : K :=
  ColorModel.difference (ColorModel.ofRGB (rgbAt c chroma).clip) (colorAt c chroma)

/-- The color gets to the search: it is between black and white and out of gamut, and clipping
moves it noticeably. -/
structure NeedsSearch (c : Lab K) : Prop where
  lightness_lt : (ColorModel.toPolar c).lightness < 1.0
  lightness_pos : 0.0 < (ColorModel.toPolar c).lightness
  outOfGamut : (ColorModel.toRGB c).inGamut = false
  noticeable_le : noticeable ≤ differenceAt c (ColorModel.toPolar c).chroma

/-- The bracket that the search starts with. -/
def Bracket.first (c : Lab K) : Bracket K :=
  ⟨0.0, (ColorModel.toPolar c).chroma, true, (ColorModel.toRGB c).clip⟩

/-- The bracket is at the head of the loop after the given number of rounds. -/
inductive IsHead (c : Lab K) : ℕ → Bracket K → Prop where
  | first : IsHead c 0 (.first c)
  | next {rounds : ℕ} {bracket narrowed : Bracket K} (hhead : IsHead c rounds bracket)
      (hwide : bracket.isWide = true)
      (hnarrow : bracket.narrow (ColorModel.toPolar c) = .narrowed narrowed) :
      IsHead c (rounds + 1) narrowed

/-- The bracket encloses a crossing of the just noticeable difference, and the clipped color is
that of one of its ends. -/
structure Bracket.IsCrossing (c : Lab K) (bracket : Bracket K) : Prop where
  low_nonneg : 0 ≤ bracket.low
  low_le_high : bracket.low ≤ bracket.high
  high_le : bracket.high ≤ (ColorModel.toPolar c).chroma
  noticeable_le_high : noticeable ≤ differenceAt c bracket.high
  inGamut_low : bracket.lowInGamut = true →
    bracket.low = 0 ∨ (rgbAt c bracket.low).inGamut = true
  low_lt_noticeable : bracket.lowInGamut = false → differenceAt c bracket.low < noticeable
  clipped : bracket.clipped = (rgbAt c bracket.high).clip ∨
    bracket.lowInGamut = false ∧ bracket.clipped = (rgbAt c bracket.low).clip

/-- What a round on the bracket leads to: half of the bracket, enclosing a crossing again, or the
clipped color in its middle, which is all but noticeably different. -/
def Outcome.IsNear (c : Lab K) (bracket : Bracket K) : Outcome K → Prop
  | settled clipped =>
    clipped = (rgbAt c bracket.middle).clip ∧ differenceAt c bracket.middle < noticeable ∧
      noticeable - tolerance < differenceAt c bracket.middle
  | narrowed next =>
    next.IsCrossing c ∧ next.high - next.low = (bracket.high - bracket.low) / 2

variable [IsStrictOrderedRing K]

/-! ## One round -/

omit [ColorModel K] in
/-- A wide bracket is wider than the tolerance. -/
theorem Bracket.isWide_iff (bracket : Bracket K) :
    bracket.isWide = true ↔ 1 / 10000 < bracket.high - bracket.low := by
  rw [isWide, decide_eq_true_eq, tolerance]
  norm_num

omit [ColorModel K] in
/-- The middle of a wide bracket is strictly between its ends. -/
theorem Bracket.middle_between {bracket : Bracket K} (hwide : bracket.isWide = true) :
    bracket.low < bracket.middle ∧ bracket.middle < bracket.high := by
  rw [isWide_iff] at hwide
  rw [middle]
  norm_num
  constructor <;> linarith

/-- The first bracket encloses a crossing. -/
theorem NeedsSearch.isCrossing_first (hchroma : MeasuresChroma K) {c : Lab K}
    (h : NeedsSearch c) : (Bracket.first c).IsCrossing c where
  low_nonneg := by norm_num [Bracket.first]
  low_le_high := by
    norm_num [Bracket.first]
    exact (hchroma c).1
  high_le := le_rfl
  noticeable_le_high := h.noticeable_le
  inGamut_low _ := Or.inl (by norm_num [Bracket.first])
  low_lt_noticeable hlow := Bool.noConfusion hlow
  clipped := Or.inl (by rw [Bracket.first, rgbAt, if_pos rfl])

/-- A round on a wide bracket around a crossing leads to half of it or settles. -/
theorem Bracket.IsCrossing.narrow {c : Lab K} {bracket : Bracket K} (h : bracket.IsCrossing c)
    (hwide : bracket.isWide = true) :
    (bracket.narrow (ColorModel.toPolar c)).IsNear c bracket := by
  obtain ⟨hlow, hhigh⟩ := Bracket.middle_between hwide
  have hnonneg := h.low_nonneg.trans hlow.le
  have hbelow := hhigh.le.trans h.high_le
  have hrgb : ColorModel.toRGB (ColorModel.ofPolar
      { ColorModel.toPolar c with chroma := bracket.middle }) = rgbAt c bracket.middle := by
    rw [rgbAt, if_neg (hhigh.trans_le h.high_le).ne, colorAt]
  have hupper : bracket.high - bracket.middle = (bracket.high - bracket.low) / 2 := by
    rw [Bracket.middle]
    norm_num
    ring
  have hlower : bracket.middle - bracket.low = (bracket.high - bracket.low) / 2 := by
    rw [Bracket.middle]
    norm_num
    ring
  unfold Bracket.narrow
  simp only [hrgb]
  split
  · next hin =>
    rw [Bool.and_eq_true] at hin
    refine ⟨⟨hnonneg, hhigh.le, h.high_le, h.noticeable_le_high, fun _ => Or.inr hin.2,
      fun hnot => absurd (hin.1.symm.trans hnot) (by decide), ?_⟩, hupper⟩
    -- The lower end was in gamut, so the clipped color is that of the upper end.
    exact h.clipped.imp_right fun hold => absurd (hin.1.symm.trans hold.1) (by decide)
  · split
    · next hsmall =>
      split
      · next hnear =>
        refine ⟨rfl, hsmall, ?_⟩
        change noticeable - differenceAt c bracket.middle < tolerance at hnear
        linarith
      · exact ⟨⟨hnonneg, hhigh.le, h.high_le, h.noticeable_le_high,
          fun hin => Bool.noConfusion hin, fun _ => hsmall, Or.inr ⟨rfl, rfl⟩⟩, hupper⟩
    · next hlarge =>
      exact ⟨⟨h.low_nonneg, hlow.le, hbelow, not_lt.mp hlarge, h.inGamut_low,
        h.low_lt_noticeable, Or.inl rfl⟩, hlower⟩

/-! ## The whole search -/

/-- At the head of each round the bracket encloses a crossing and has been halved once per
round. -/
theorem IsHead.isCrossing (hchroma : MeasuresChroma K) {c : Lab K} (h : NeedsSearch c)
    {rounds : ℕ} {bracket : Bracket K} (hhead : IsHead c rounds bracket) :
    bracket.IsCrossing c ∧
      bracket.high - bracket.low = (ColorModel.toPolar c).chroma / 2 ^ rounds := by
  induction hhead with
  | first =>
    refine ⟨h.isCrossing_first hchroma, ?_⟩
    norm_num [Bracket.first]
  | @next rounds bracket narrowed _ hwide hnarrow ih =>
    have hround := ih.1.narrow hwide
    rw [hnarrow] at hround
    refine ⟨hround.1, ?_⟩
    rw [hround.2, ih.2, pow_succ, div_div]

/-- The chroma of a normalized color is at most the diagonal of half the unit square. -/
theorem chroma_normalized_le (hchroma : MeasuresChroma K) (c : Lab K) :
    (ColorModel.toPolar c.normalized).chroma ^ 2 ≤ 1 / 2 := by
  have haxis (x : K) : Lab.axis x ^ 2 ≤ 1 / 4 := by
    obtain ⟨hlow, hhigh⟩ := Color.axis_within x
    unfold Lab.axisLimit at hlow hhigh
    norm_num at hlow hhigh
    nlinarith
  have ha : c.normalized.a ^ 2 ≤ 1 / 4 := haxis c.a
  have hb : c.normalized.b ^ 2 ≤ 1 / 4 := haxis c.b
  linarith [(hchroma c.normalized).2]

/-- A bracket that is still wide has been halved less than 13 times. -/
theorem IsHead.lt_of_isWide (hchroma : MeasuresChroma K) {c : Lab K}
    (h : NeedsSearch c.normalized) {rounds : ℕ} {bracket : Bracket K}
    (hhead : IsHead c.normalized rounds bracket) (hwide : bracket.isWide = true) :
    rounds < 13 := by
  by_contra hmany
  rw [Bracket.isWide_iff, (hhead.isCrossing hchroma h).2] at hwide
  have hpow : (2 : K) ^ 13 ≤ 2 ^ rounds := pow_le_pow_right₀ one_le_two (not_lt.mp hmany)
  have hsmall := chroma_normalized_le hchroma c
  rw [lt_div_iff₀ (by positivity)] at hwide
  nlinarith

omit [IsStrictOrderedRing K] in
/-- A narrow bracket ends the search at once. -/
theorem Bracket.search_of_narrow {bracket : Bracket K} (hnarrow : bracket.isWide = false)
    (origin : Polar K) (fuel : ℕ) : bracket.search origin fuel = bracket.clipped := by
  cases fuel with
  | zero => rfl
  | succ fuel => rw [search, hnarrow, if_neg Bool.false_ne_true]

/-- It makes no difference how many rounds a search is given once these are enough. -/
theorem IsHead.search_eq (hchroma : MeasuresChroma K) {c : Lab K}
    (h : NeedsSearch c.normalized) {rounds fuel more : ℕ} {bracket : Bracket K}
    (hhead : IsHead c.normalized rounds bracket) (hfuel : 13 ≤ rounds + fuel)
    (hmore : 13 ≤ rounds + more) :
    bracket.search (ColorModel.toPolar c.normalized) fuel =
      bracket.search (ColorModel.toPolar c.normalized) more := by
  induction fuel generalizing rounds more bracket with
  | zero =>
    have hnarrow : bracket.isWide = false := eq_false_of_ne_true fun hwide => by
      have := hhead.lt_of_isWide hchroma h hwide
      omega
    rw [Bracket.search_of_narrow hnarrow, Bracket.search_of_narrow hnarrow]
  | succ fuel ih =>
    cases hwide : bracket.isWide with
    | false => rw [Bracket.search_of_narrow hwide, Bracket.search_of_narrow hwide]
    | true =>
      have hrounds := hhead.lt_of_isWide hchroma h hwide
      obtain ⟨more, rfl⟩ := Nat.exists_eq_succ_of_ne_zero (n := more) (by omega)
      rw [Bracket.search, Bracket.search, if_pos hwide, if_pos hwide]
      split
      · rfl
      · next narrowed houtcome => exact ih (hhead.next hwide houtcome) (by omega) (by omega)

/-- A search that is given enough rounds comes to a narrow bracket or settles in the middle of a
wide one. -/
theorem IsHead.exists_last (hchroma : MeasuresChroma K) {c : Lab K}
    (h : NeedsSearch c.normalized) {rounds fuel : ℕ} {bracket : Bracket K}
    (hhead : IsHead c.normalized rounds bracket) (hrounds : rounds ≤ 13)
    (hfuel : 13 ≤ rounds + fuel) :
    ∃ (count : ℕ) (last : Bracket K), IsHead c.normalized count last ∧
      let found := bracket.search (ColorModel.toPolar c.normalized) fuel
      (count ≤ 13 ∧ last.isWide = false ∧ found = last.clipped ∨
        count < 13 ∧ last.isWide = true ∧
          last.narrow (ColorModel.toPolar c.normalized) = .settled found) := by
  induction fuel generalizing rounds bracket with
  | zero =>
    refine ⟨rounds, bracket, hhead, Or.inl ⟨hrounds, eq_false_of_ne_true fun hwide => ?_, rfl⟩⟩
    have := hhead.lt_of_isWide hchroma h hwide
    omega
  | succ fuel ih =>
    cases hwide : bracket.isWide with
    | false =>
      exact ⟨rounds, bracket, hhead, Or.inl ⟨hrounds, hwide, Bracket.search_of_narrow hwide _ _⟩⟩
    | true =>
      have hfew := hhead.lt_of_isWide hchroma h hwide
      rw [Bracket.search, if_pos hwide]
      split
      · next clipped houtcome =>
        exact ⟨rounds, bracket, hhead, Or.inr ⟨hfew, hwide, houtcome⟩⟩
      · next narrowed houtcome => exact ih (hhead.next hwide houtcome) hfew (by omega)

omit [IsStrictOrderedRing K] in
/-- Gamut mapping searches for exactly the colors that need it. The others become white, black,
themselves or their clipped form. -/
theorem map_eq_search_or (c : Lab K) :
    (NeedsSearch c.normalized → map c = ColorModel.ofRGB
      ((Bracket.first c.normalized).search (ColorModel.toPolar c.normalized) maxRounds)) ∧
    (¬ NeedsSearch c.normalized →
      map c = ⟨1.0, 0.0, 0.0⟩ ∨ map c = ⟨0.0, 0.0, 0.0⟩ ∨ map c = c.normalized ∨
        map c = ColorModel.ofRGB (ColorModel.toRGB c.normalized).clip) := by
  have hdifference : ColorModel.difference
      (ColorModel.ofRGB (ColorModel.toRGB c.normalized).clip)
      (ColorModel.ofPolar (ColorModel.toPolar c.normalized)) =
        differenceAt c.normalized (ColorModel.toPolar c.normalized).chroma := by
    rw [differenceAt, rgbAt, if_pos rfl, colorAt]
  rw [map]
  simp only [hdifference]
  split
  · next hwhite => exact ⟨fun h => absurd hwhite h.lightness_lt.not_ge, fun _ => Or.inl rfl⟩
  · next hnotWhite =>
    split
    · next hblack =>
      exact ⟨fun h => absurd hblack h.lightness_pos.not_ge, fun _ => Or.inr (Or.inl rfl)⟩
    · next hnotBlack =>
      split
      · next hin =>
        exact ⟨fun h => absurd hin (by rw [h.outOfGamut]; exact Bool.false_ne_true),
          fun _ => Or.inr (Or.inr (Or.inl rfl))⟩
      · next hout =>
        split
        · next hsmall =>
          exact ⟨fun h => absurd hsmall h.noticeable_le.not_gt,
            fun _ => Or.inr (Or.inr (Or.inr rfl))⟩
        · next hlarge =>
          exact ⟨fun _ => rfl, fun hnot => absurd
            ⟨not_le.mp hnotWhite, not_le.mp hnotBlack, eq_false_of_ne_true hout,
              not_lt.mp hlarge⟩ hnot⟩

/-- The search of gamut mapping ends after 13 rounds at most. Each round halves the bracket, which
encloses a crossing of the just noticeable difference at the head of every round. The search ends
with the clipped color at an end of a bracket that is no wider than the tolerance, or with one
that is different by less than the just noticeable difference and by no less than this minus the
tolerance. -/
theorem map_settles_at_crossing (hchroma : MeasuresChroma K) (c : Lab K) :
    let d := c.normalized
    let origin := ColorModel.toPolar d
    (¬ NeedsSearch d → map c = ⟨1.0, 0.0, 0.0⟩ ∨ map c = ⟨0.0, 0.0, 0.0⟩ ∨ map c = d ∨
      map c = ColorModel.ofRGB (ColorModel.toRGB d).clip) ∧
    (NeedsSearch d →
      (∀ rounds bracket, IsHead d rounds bracket →
        bracket.IsCrossing d ∧ bracket.high - bracket.low = origin.chroma / 2 ^ rounds ∧
          (bracket.isWide = true → rounds < 13)) ∧
      (∀ fuel, 13 ≤ fuel →
        map c = ColorModel.ofRGB ((Bracket.first d).search origin fuel)) ∧
      ∃ rounds bracket, IsHead d rounds bracket ∧
        (rounds ≤ 13 ∧ bracket.high - bracket.low ≤ tolerance ∧
            (∃ chroma, (chroma = bracket.high ∨
                bracket.lowInGamut = false ∧ chroma = bracket.low) ∧
              |chroma - bracket.low| ≤ tolerance ∧ |bracket.high - chroma| ≤ tolerance ∧
              map c = ColorModel.ofRGB (rgbAt d chroma).clip) ∨
          rounds < 13 ∧ bracket.isWide = true ∧
            differenceAt d bracket.middle < noticeable ∧
            noticeable - tolerance < differenceAt d bracket.middle ∧
            map c = ColorModel.ofRGB (rgbAt d bracket.middle).clip)) := by
  intro d origin
  refine ⟨(map_eq_search_or c).2, fun h => ?_⟩
  have hmap := (map_eq_search_or c).1 h
  have hfirst : IsHead d 0 (Bracket.first d) := .first
  have hrounds : 13 ≤ 0 + maxRounds := by decide
  refine ⟨fun rounds bracket hhead => ?_, fun fuel hfuel => ?_, ?_⟩
  · obtain ⟨hcrossing, hwidth⟩ := hhead.isCrossing hchroma h
    exact ⟨hcrossing, hwidth, hhead.lt_of_isWide hchroma h⟩
  · have hsame : (Bracket.first d).search origin maxRounds = (Bracket.first d).search origin fuel :=
      hfirst.search_eq hchroma h hrounds (by omega)
    rw [hmap, hsame]
  · obtain ⟨rounds, last, hlast, hend⟩ := hfirst.exists_last hchroma h (by omega) hrounds
    have hcrossing := (hlast.isCrossing hchroma h).1
    refine ⟨rounds, last, hlast, hend.imp ?_ ?_⟩
    · rintro ⟨hcount, hnarrow, hfound⟩
      have hwidth : last.high - last.low ≤ tolerance := by
        rw [Bracket.isWide, decide_eq_false_iff_not, not_lt] at hnarrow
        exact hnarrow
      have hnonneg : 0 ≤ last.high - last.low := sub_nonneg.mpr hcrossing.low_le_high
      have hzero : |(0 : K)| ≤ tolerance := abs_zero.trans_le (hnonneg.trans hwidth)
      refine ⟨hcount, hwidth, ?_⟩
      rcases hcrossing.clipped with hhigh | ⟨hout, hlow⟩
      · refine ⟨last.high, Or.inl rfl, ?_, by rwa [sub_self], by rw [hmap, hfound, hhigh]⟩
        rwa [abs_of_nonneg hnonneg]
      · refine ⟨last.low, Or.inr ⟨hout, rfl⟩, by rwa [sub_self], ?_, by rw [hmap, hfound, hlow]⟩
        rwa [abs_of_nonneg hnonneg]
    · rintro ⟨hcount, hwide, hsettled⟩
      have hnear := hcrossing.narrow hwide
      rw [hsettled] at hnear
      exact ⟨hcount, hwide, hnear.2.1, hnear.2.2, by rw [hmap, hnear.1]⟩

/-- A model of color over the rational numbers with a single hue, in which colors are in gamut up to
a chroma of a quarter and clipping moves the others there. -/
@[reducible]
def singleHueModel : ColorModel ℚ where
  toRGB c := ⟨4 * c.a, c.lightness, c.lightness⟩
  ofRGB c := ⟨c.green, c.red / 4, 0⟩
  toPolar c := ⟨c.lightness, |c.a|, some 0⟩
  ofPolar c := ⟨c.lightness, c.chroma, 0⟩
  difference c d := |c.a - d.a|

/-- In this model a color of chroma 0.4 needs the search, which takes 13 rounds at most and ends at
a bracket that encloses a crossing. -/
theorem map_settles_at_crossing_singleHue :
    ∃ _ : ColorModel ℚ, MeasuresChroma ℚ ∧ NeedsSearch (⟨0.5, 0.4, 0⟩ : Lab ℚ).normalized ∧
      ∃ rounds bracket, IsHead (⟨0.5, 0.4, 0⟩ : Lab ℚ).normalized rounds bracket ∧ rounds ≤ 13 ∧
        bracket.IsCrossing (⟨0.5, 0.4, 0⟩ : Lab ℚ).normalized := by
  let _ := singleHueModel
  have hchroma : MeasuresChroma ℚ := fun c => ⟨abs_nonneg c.a, by
    change |c.a| ^ 2 ≤ c.a ^ 2 + c.b ^ 2
    rw [sq_abs]
    nlinarith [sq_nonneg c.b]⟩
  have hsearch : NeedsSearch (⟨0.5, 0.4, 0⟩ : Lab ℚ).normalized :=
    ⟨by decide +kernel, by decide +kernel, by decide +kernel, by decide +kernel⟩
  obtain ⟨hheads, -, rounds, bracket, hhead, hend⟩ :=
    (map_settles_at_crossing hchroma (⟨0.5, 0.4, 0⟩ : Lab ℚ)).2 hsearch
  refine ⟨singleHueModel, hchroma, hsearch, rounds, bracket, hhead, ?_,
    (hheads rounds bracket hhead).1⟩
  rcases hend with ⟨hcount, -⟩ | ⟨hcount, -⟩
  · exact hcount
  · exact hcount.le

end Gamut

end ColorWords
