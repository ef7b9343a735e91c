import ColorWords.Proofs.Color.Gamut
import ColorWords.Proofs.Color.RoundTrip

/-!
# What the text of a color keeps

Over the rational numbers a normal color is read back from its text with each channel rounded to the
decimals that are written. Rounding moves a channel by half a unit of the last decimal at most, and
limiting it to its range afterwards only moves it back. Twelve decimals are as many as the keys of
a color tell apart, so a color with that many is read back as an equal one.
-/

namespace ColorWords.Color

open Rational Scalar

/-! ## Rounded channels -/

/-- The channels of a normal color are no more than half a unit of the last decimal from those that
are read back. -/
theorem channelwise_toDecimals {c : Color ℚ} (hc : c.IsNormal) (places : ℕ) :
    Channelwise (fun x y => |x - y| ≤ 1 / 2 / 10 ^ places) c (c.toDecimals places) := by
  have hlimited {low high x : ℚ} (hx : Within low high x) :
      |x - clamp low high (numberOrZero (Rational.toDecimals places x))| ≤
        1 / 2 / 10 ^ places := by
    rw [numberOrZero_eq_self (le_refl (Rational.toDecimals places x))]
    exact (abs_sub_clamp_le hx _).trans (isNearest_toDecimals places x).abs_sub_le
  exact ⟨hlimited hc.lightness, hlimited hc.a, hlimited hc.b, hlimited hc.alpha⟩

/-! ## Equality -/

/-- Colors with the same keys are equal. -/
theorem beq_of_keys_eq {α : Type} [Scalar α] [Numeral α]
    [Std.ReflCmp (totalCompare : α → α → Ordering)] {c d : Color α} (h : c.keys = d.keys) :
    (c == d) = true := by
  have hsame (x : α) : identical x x = true := beq_iff_eq.mpr Std.ReflCmp.compare_self
  change (sameChannels c d || (List.zipWith identical c.keys d.keys).all id) = true
  rw [h, keys]
  simp [hsame]

/-- In exact arithmetic the key of a channel is its number of units, rounded. -/
theorem channelKey_eq_round {K : Type} [Field K] [LinearOrder K] [Numeral K] (x : K) :
    channelKey x = Numeral.round (keyUnits * x) := by
  unfold channelKey
  rw [numberOrZero_eq_self (le_refl x)]
  dsimp only
  split
  · next hsame =>
    simp only [same, Bool.and_eq_true, decide_eq_true_eq] at hsame
    exact (le_antisymm hsame.1 hsame.2).symm.trans (by norm_num)
  · rfl

/-- The key of a channel is its number of units of the last decimal that counts. -/
theorem channelKey_eq (x : ℚ) : channelKey x = roundAway (x * 10 ^ 12) := by
  have hunits : (keyUnits : ℚ) = 10 ^ 12 := by norm_num [keyUnits]
  rw [channelKey_eq_round, hunits, mul_comm]
  rfl

/-- Rounding to twelve decimals does not change the key of a channel. -/
theorem channelKey_toDecimals (x : ℚ) : channelKey (Rational.toDecimals 12 x) = channelKey x := by
  rw [channelKey_eq, channelKey_eq, Rational.toDecimals, div_mul_cancel₀ _ (by norm_num),
    roundAway_intCast]

/-- The channels of a normal color stay in their ranges when they are rounded to twelve decimals. -/
theorem toDecimals_twelve {c : Color ℚ} (hc : c.IsNormal) :
    c.toDecimals 12 =
      ⟨⟨Rational.toDecimals 12 c.lab.lightness, Rational.toDecimals 12 c.lab.a,
        Rational.toDecimals 12 c.lab.b⟩, Rational.toDecimals 12 c.alpha⟩ := by
  have hunit {x : ℚ} (hx : Within 0.0 1.0 x) : Within 0.0 1.0 (Rational.toDecimals 12 x) := by
    have hlow : (0.0 : ℚ) = (0 : ℤ) / 10 ^ 12 := by norm_num
    have hhigh : (1.0 : ℚ) = (10 ^ 12 : ℤ) / 10 ^ 12 := by norm_num
    rw [hlow, hhigh] at hx ⊢
    exact toDecimals_within hx
  have haxis {x : ℚ} (hx : Within (-Lab.axisLimit) Lab.axisLimit x) :
      Within (-Lab.axisLimit) Lab.axisLimit (Rational.toDecimals 12 x) := by
    have hlow : (-Lab.axisLimit : ℚ) = (-(5 * 10 ^ 11) : ℤ) / 10 ^ 12 := by norm_num [Lab.axisLimit]
    have hhigh : (Lab.axisLimit : ℚ) = (5 * 10 ^ 11 : ℤ) / 10 ^ 12 := by norm_num [Lab.axisLimit]
    rw [hlow, hhigh] at hx ⊢
    exact toDecimals_within hx
  rw [toDecimals, make, Lab.normalized, unit_eq_self (hunit hc.lightness),
    axis_eq_self (haxis hc.a), axis_eq_self (haxis hc.b), unit_eq_self (hunit hc.alpha)]

/-- Twelve decimals keep the keys of a normal color. -/
theorem keys_toDecimals_twelve {c : Color ℚ} (hc : c.IsNormal) :
    (c.toDecimals 12).keys = c.keys := by
  have hparsed : (c.toDecimals 12).IsNormal := isNormal_make _ _
  simp only [keys, hparsed.normalized_eq, hc.normalized_eq]
  simp only [toDecimals_twelve hc, channelKey_toDecimals]

/-! ## Texts -/

/-- In exact arithmetic a normal color is read back from its text as the color made from its
channels, each rounded to the given number of decimals with halves away from zero. Every channel is
within half a unit of the last decimal. The numbers in the text are numerals with no more decimals,
without an exponent and without a negative zero. With twelve decimals the color read back has the
same keys, so that it is equal to the color that was written and hashes alike. -/
theorem read_write_of_isNormal [ColorModel ℚ] {c : Color ℚ} (hc : c.IsNormal) (places : ℕ) :
    ∃ rounded parsed : Color ℚ, Channelwise (Rational.IsNearest places) c rounded ∧
      parsed = make rounded.lab rounded.alpha ∧ read (c.write places) = .ok parsed ∧
      Channelwise (fun x y => |x - y| ≤ 1 / 2 / 10 ^ places) c parsed ∧
      HasFields (Decimal.IsNumeral places) (c.write places) ∧
      (places = 12 → (parsed == c) = true ∧ parsed.keys = c.keys) := by
  refine ⟨⟨⟨Rational.toDecimals places c.lab.lightness, Rational.toDecimals places c.lab.a,
    Rational.toDecimals places c.lab.b⟩, Rational.toDecimals places c.alpha⟩,
    c.toDecimals places, ?_, rfl, c.read_write places, channelwise_toDecimals hc places,
    hasFields_write fun x _ => isNumeral_writeChannel places x, ?_⟩
  · exact ⟨isNearest_toDecimals _ _, isNearest_toDecimals _ _, isNearest_toDecimals _ _,
      isNearest_toDecimals _ _⟩
  · rintro rfl
    exact ⟨beq_of_keys_eq (keys_toDecimals_twelve hc), keys_toDecimals_twelve hc⟩

/-- A color whose axes are rounded in different directions is equal to what is read back. -/
theorem read_write_of_isNormal_third :
    let c : Color ℚ := ⟨⟨1 / 2, -2 / 7, 1 / 3⟩, 3 / 4⟩
    c.IsNormal ∧ ∃ _ : ColorModel ℚ, ∃ parsed,
      read (c.write 12) = .ok parsed ∧ (parsed == c) = true := by
  intro c
  have hc : c.IsNormal := by
    constructor <;> constructor <;> norm_num [c, Lab.axisLimit]
  obtain ⟨-, parsed, -, -, hread, -, -, htwelve⟩ :=
    @read_write_of_isNormal diamondModel c hc 12
  exact ⟨hc, diamondModel, parsed, hread, (htwelve rfl).1⟩

end ColorWords.Color
