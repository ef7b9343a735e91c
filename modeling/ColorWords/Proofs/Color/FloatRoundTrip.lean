import ColorWords.Proofs.Color.FloatDistance
import ColorWords.Proofs.Color.RoundTrip
import ColorWords.Proofs.Scalar.Binary64Power
import ColorWords.Proofs.Scalar.Binary64Writing

/-!
# Writing float colors and reading them back

In float arithmetic a channel is multiplied by the factor, rounded to an integer and divided by the
factor again, with a rounding error before and after. As long as the factor is finite the result is
finite too, so that it is written as a numeral and read back as it is.
-/

namespace ColorWords

open Scalar Binary64

namespace Binary64

variable {x y low high : Float} {p q : ℝ}

/-- Finite floats are the same exactly if their numbers are. -/
theorem HasValue.same_iff (hx : HasValue x p) (hy : HasValue y q) : same x y = true ↔ p = q := by
  rw [same, Bool.and_eq_true, decide_eq_true_eq, decide_eq_true_eq, hx.le_iff hy, hy.le_iff hx]
  exact le_antisymm_iff.symm

/-- A finite float is a number. -/
theorem HasValue.numberOrZero_eq (hx : HasValue x p) : numberOrZero x = x :=
  if_pos ((hx.le_iff hx).mpr le_rfl)

/-- Limiting a finite float limits its number. -/
theorem HasValue.clamp (hlow : HasValue low p) (hhigh : HasValue high q) {r : ℝ}
    (hx : HasValue x r) : HasValue (clamp low high x) (clamp p q r) := by
  unfold Scalar.clamp
  simp only [hx.lt_iff hlow, hhigh.lt_iff hx]
  split
  · exact hlow
  · split
    · exact hhigh
    · exact hx

end Binary64

namespace Color

/-! ## Rounded channels -/

/-- The number times the factor is close to the integer, and the integer over the factor is close to
the result: each of the two is rounded to a float, and the product then to the integer. -/
structure IsMultipleNear (f p : ℝ) (n : ℤ) (r : ℝ) : Prop where
  exists_product : ∃ y, RoundsTo (p * f) y ∧ |y - n| ≤ 1 / 2
  quotient : RoundsTo (n / f) r

section Rounded

variable {factor x : Float} {f p r : ℝ} {n : ℤ}

/-- A channel in units is no larger than the factor. -/
theorem abs_mul_le (hf : 1 ≤ f) (hp : |p| ≤ 1) : |p * f| ≤ f := by
  rw [abs_mul, abs_of_pos (by linarith : 0 < f)]
  exact mul_le_of_le_one_left (by linarith) hp

/-- The integer over the factor exceeds one by no more than its rounding. -/
theorem abs_div_le_two (hfactor : HasValue factor f) (hf : 1 ≤ f) (hp : |p| ≤ 1) {y : ℝ}
    (hy : RoundsTo (p * f) y) (hn : |y - n| ≤ 1 / 2) : |n / f| ≤ 2 := by
  have hyf : |y| ≤ f := hy.abs_le_of_abs_le hfactor.isRepresentable (abs_mul_le hf hp)
  have htriangle := abs_sub_abs_le_abs_sub (n : ℝ) y
  rw [abs_sub_comm] at htriangle
  rw [abs_div, abs_of_pos (by linarith : 0 < f), div_le_iff₀ (by linarith)]
  linarith

/-- A channel is rounded to a multiple near it, and the result is not the negative zero. -/
theorem exists_hasValue_roundTo (hfactor : HasValue factor f) (hf : 1 ≤ f) (hx : HasValue x p)
    (hp : |p| ≤ 1) :
    ∃ n r, IsMultipleNear f p n r ∧ HasValue (roundTo factor x) r ∧
      IsPlain (roundTo factor x) := by
  have hrange : f < 2 ^ (1024 : ℤ) := (le_abs_self f).trans_lt hfactor.abs_lt
  obtain ⟨y, hy, hrounds⟩ := hx.mul hfactor hfactor.isRepresentable hrange (abs_mul_le hf hp)
  obtain ⟨n, hn, hnear⟩ := hy.round
  have htwo := abs_div_le_two hfactor hf hp hrounds hnear
  have htwoRange : (2 : ℝ) < 2 ^ (1024 : ℤ) := (le_abs_self 2).trans_lt hasValue_two.abs_lt
  obtain ⟨r, hr, hquotient⟩ :=
    hn.div hfactor (by linarith) hasValue_two.isRepresentable htwoRange htwo
  refine ⟨n, r, ⟨⟨y, hrounds, hnear⟩, hquotient⟩, ?_⟩
  rw [roundTo, hx.numberOrZero_eq]
  change HasValue (if same (Binary64.round (x * factor) / factor) 0.0 then 0.0 else _) r ∧
    IsPlain (if same (Binary64.round (x * factor) / factor) 0.0 then 0.0 else _)
  split
  · next hzero => exact ⟨(hr.same_iff hasValue_zero).mp hzero ▸ hasValue_zero, isPlain_zero⟩
  · next hne => exact ⟨hr, hr.isPlain fun hzero => hne ((hr.same_iff hasValue_zero).mpr hzero)⟩

/-- Rounding moves a channel by half of a unit and by two rounding errors at most. -/
theorem IsMultipleNear.error_le (h : IsMultipleNear f p n r) (hfactor : HasValue factor f)
    (hf : 1 ≤ f) (hp : |p| ≤ 1) : |p - r| ≤ 1 / 2 / f + 3 * roundingUnit := by
  obtain ⟨y, hy, hn⟩ := h.exists_product
  have hpos : 0 < f := by linarith
  have hfirst : |p * f - y| ≤ f * roundingUnit := hy.error_le_mul hf (abs_mul_le hf hp)
  have hmultiple : |p - n / f| ≤ 1 / 2 / f + roundingUnit := by
    have hscaled : |p * f - n| ≤ 1 / 2 + roundingUnit * f := by
      linarith [abs_sub_le (p * f) y n]
    have hdifference : p - n / f = (p * f - n) / f := by field_simp
    have hsum : 1 / 2 / f + roundingUnit = (1 / 2 + roundingUnit * f) / f := by field_simp
    rw [hdifference, hsum, abs_div, abs_of_pos hpos]
    exact div_le_div_of_nonneg_right hscaled hpos.le
  have hsecond : |n / f - r| ≤ 2 * roundingUnit :=
    h.quotient.error_le_mul one_le_two (abs_div_le_two hfactor hf hp hy hn)
  linarith [abs_sub_le p (n / f) r]

/-- A finite float that is not the negative zero is written as a numeral and read back. -/
theorem readsBack_roundTo {places : ℕ} (hr : HasValue (roundTo (powNat 10.0 places) x) r)
    (hplain : IsPlain (roundTo (powNat 10.0 places) x)) :
    ReadsBack places x (roundTo (powNat 10.0 places) x) := by
  have hfinite := (hasValue_iff.mp hr).1
  exact ⟨Binary64.isNumeral_write hfinite hplain, Binary64.read?_write hfinite⟩

end Rounded

/-! ## Channels of normal colors -/

/-- The channels of a normal color are finite and between minus one and one. -/
theorem exists_hasValue_of_mem {c : Color Float} (hc : c.IsNormal) {x : Float}
    (hx : x ∈ [c.lab.lightness, c.lab.a, c.lab.b, c.alpha]) : ∃ p, HasValue x p ∧ |p| ≤ 1 := by
  have hlimit : HasValue Lab.axisLimit (1 / 2) := hasValue_half
  have hunit {x : Float} (h : Within 0.0 1.0 x) : ∃ p, HasValue x p ∧ |p| ≤ 1 := by
    obtain ⟨p, hp, hlow, hhigh⟩ := exists_hasValue_of_within hasValue_zero hasValue_one h
    exact ⟨p, hp, abs_le.mpr ⟨by linarith, hhigh⟩⟩
  have haxis {x : Float} (h : Within (-Lab.axisLimit) Lab.axisLimit x) :
      ∃ p, HasValue x p ∧ |p| ≤ 1 := by
    obtain ⟨p, hp, hlow, hhigh⟩ := exists_hasValue_of_within hlimit.neg hlimit h
    exact ⟨p, hp, abs_le.mpr ⟨by linarith, by linarith⟩⟩
  simp only [List.mem_cons, List.not_mem_nil, or_false] at hx
  obtain rfl | rfl | rfl | rfl := hx
  · exact hunit hc.lightness
  · exact haxis hc.a
  · exact haxis hc.b
  · exact hunit hc.alpha

/-- The channels as they are rounded to be written. -/
def rounded (places : ℕ) (c : Color Float) : Color Float :=
  let round := roundTo (powNat 10.0 places)
  ⟨⟨round c.lab.lightness, round c.lab.a, round c.lab.b⟩, round c.alpha⟩

/-- The color that the text of a color is read as, where alpha is one if it is left out. -/
def reread (places : ℕ) (c : Color Float) : Color Float :=
  make (c.rounded places).lab (if same c.alpha 1.0 then 1.0 else (c.rounded places).alpha)

section Reread

variable {c : Color Float} {places : ℕ} {f : ℝ}

/-- The channels of a normal color are read back as they are rounded, if the factor is finite. -/
theorem readsBack_rounded (hc : c.IsNormal) (hfactor : HasValue (powNat 10.0 places) f)
    (hf : 1 ≤ f) : Channelwise (ReadsBack places) c (c.rounded places) := by
  have hchannel {x : Float} (hx : x ∈ [c.lab.lightness, c.lab.a, c.lab.b, c.alpha]) :
      ReadsBack places x (roundTo (powNat 10.0 places) x) := by
    obtain ⟨p, hp, hle⟩ := exists_hasValue_of_mem hc hx
    obtain ⟨n, r, -, hr, hplain⟩ := exists_hasValue_roundTo hfactor hf hp hle
    exact readsBack_roundTo hr hplain
  constructor <;> apply hchannel <;> simp

/-- So the fields of its text are numerals, and its text is read. -/
theorem read_write_of_factor (hc : c.IsNormal) (hfactor : HasValue (powNat 10.0 places) f)
    (hf : 1 ≤ f) :
    HasFields (fun text => ∃ digits, Decimal.IsNumeral digits text) (c.write places) ∧
      read (c.write places) = .ok (c.reread places) := by
  have hreads := readsBack_rounded hc hfactor hf
  refine ⟨hasFields_write ?_, read_write_of_readsBack hreads⟩
  simp only [List.forall_mem_cons]
  exact ⟨hreads.lightness.isNumeral, hreads.a.isNumeral, hreads.b.isNumeral,
    hreads.alpha.isNumeral, List.forall_mem_nil _⟩

end Reread

end Color

end ColorWords
