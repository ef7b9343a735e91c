import ColorWords.Proofs.Color.FloatRoundTrip
import ColorWords.Proofs.Color.Gamut

/-!
# What printing a float color settles

With up to fifteen decimals a channel that is rounded twice is the same as after the first time, for
the errors of float arithmetic are less than half of a unit. So the text of a color that is read is
written again, unless alpha was written because it is not one although it is rounded to one.
-/

namespace ColorWords.Color

open Scalar Binary64

/-! ## Rounding twice -/

section Rounded

variable {factor x : Float} {f p r s bound : ℝ} {m n : ℤ}

/-- The negated number is rounded to the negated result. -/
theorem IsMultipleNear.neg (h : IsMultipleNear f p n r) : IsMultipleNear f (-p) (-n) (-r) := by
  obtain ⟨y, hy, hn⟩ := h.exists_product
  refine ⟨⟨-y, ?_, ?_⟩, ?_⟩
  · rw [neg_mul]
    exact hy.neg
  · rw [Int.cast_neg, neg_sub_neg, abs_sub_comm]
    exact hn
  · rw [Int.cast_neg, neg_div]
    exact h.quotient.neg

/-- Rounding does not exceed a bound that is a multiple itself. -/
theorem IsMultipleNear.le_of_le (h : IsMultipleNear f p n r) (hf : 0 < f) (hm : bound * f = m)
    (hbound : IsRepresentable bound) (hmultiple : IsRepresentable m) (hp : p ≤ bound) :
    r ≤ bound := by
  obtain ⟨y, hy, hn⟩ := h.exists_product
  have hproduct : p * f ≤ m := hm ▸ mul_le_mul_of_nonneg_right hp hf.le
  have hym : y ≤ m := (hy.noneBetween m hmultiple).1 hproduct
  have hnm : n ≤ m := by
    have hlt : (n : ℝ) < m + 1 := by linarith [(abs_le.mp hn).1]
    exact Int.lt_add_one_iff.mp (by exact_mod_cast hlt)
  refine (h.quotient.noneBetween bound hbound).1 ?_
  rw [div_le_iff₀ hf, hm]
  exact_mod_cast hnm

/-- A factor that is not too large leaves a multiple where it is. -/
theorem IsMultipleNear.eq_of_isMultipleNear (h : IsMultipleNear f p n r)
    (h' : IsMultipleNear f r m s) (hfactor : HasValue factor f) (hf : 1 ≤ f) (hlarge : f ≤ 10 ^ 15)
    (hp : |p| ≤ 1) (hr : |r| ≤ 1) : s = r := by
  obtain ⟨y, hy, hn⟩ := h.exists_product
  obtain ⟨z, hz, hm⟩ := h'.exists_product
  have hpos : 0 < f := by linarith
  have hunit : f * roundingUnit ≤ 1 / 8 := by
    have hle := mul_le_mul_of_nonneg_right hlarge roundingUnit_pos.le
    rw [roundingUnit, zpow_neg] at hle ⊢
    norm_num at hle ⊢
    linarith
  have hquotient : |n / f - r| ≤ 2 * roundingUnit :=
    h.quotient.error_le_mul one_le_two (abs_div_le_two hfactor hf hp hy hn)
  have hproduct : |r * f - z| ≤ f * roundingUnit := hz.error_le_mul hf (abs_mul_le hf hr)
  have hback : |n - r * f| ≤ 2 * (f * roundingUnit) := by
    have hscaled : (n : ℝ) - r * f = (n / f - r) * f := by
      rw [sub_mul, div_mul_cancel₀ _ hpos.ne']
    rw [hscaled, abs_mul, abs_of_pos hpos]
    linarith [mul_le_mul_of_nonneg_right hquotient hpos.le]
  -- Both integers are closer to the second product than they can be to each other.
  have hclose : |(n : ℝ) - m| < 1 := by
    linarith [abs_sub_le (n : ℝ) (r * f) m, abs_sub_le (r * f) z m]
  have hnm : n = m := sub_eq_zero.mp (Int.abs_lt_one_iff.mp (by exact_mod_cast hclose))
  exact h'.quotient.unique (hnm ▸ h.quotient)

end Rounded

/-! ## Channels -/

section Channels

variable {places : ℕ} {x : Float}

/-- A channel that is rounded to multiples of the same unit stays as it is. -/
theorem roundTo_roundTo (hplaces : places ≤ 15) {p r : ℝ} (hx : HasValue x p) (hp : |p| ≤ 1)
    (hr : HasValue (roundTo (powNat 10.0 places) x) r) (hle : |r| ≤ 1) :
    roundTo (powNat 10.0 places) (roundTo (powNat 10.0 places) x) =
      roundTo (powNat 10.0 places) x := by
  have hfactor := hasValue_powNat_ten (n := places) (by omega)
  have hone : (1 : ℝ) ≤ 10 ^ places := one_le_pow₀ (by norm_num)
  have hlarge : (10 : ℝ) ^ places ≤ 10 ^ 15 := pow_le_pow_right₀ (by norm_num) hplaces
  obtain ⟨n, r', h, hr', hplain⟩ := exists_hasValue_roundTo hfactor hone hx hp
  obtain rfl : r' = r := hr'.2.symm.trans hr.2
  obtain ⟨m, s, h', hs, hplain'⟩ := exists_hasValue_roundTo hfactor hone hr hle
  obtain rfl := h.eq_of_isMultipleNear h' hfactor hone hlarge hp hle
  exact hs.eq_of_isPlain hr hplain' hplain

/-- A channel stays in its range when it is rounded if the ends of the range are multiples. -/
theorem roundTo_within (hplaces : places ≤ 15) {low high : Float} {l h p : ℝ} {i j : ℤ}
    (hlow : HasValue low l) (hhigh : HasValue high h) (hi : l * 10 ^ places = i)
    (hj : h * 10 ^ places = j) (hil : |i| ≤ 10 ^ 15) (hjl : |j| ≤ 10 ^ 15) (hx : HasValue x p)
    (hp : |p| ≤ 1) (hwithin : Within low high x) :
    Within low high (roundTo (powNat 10.0 places) x) := by
  have hfactor := hasValue_powNat_ten (n := places) (by omega)
  have hpos : (0 : ℝ) < 10 ^ places := by positivity
  have hone : (1 : ℝ) ≤ 10 ^ places := one_le_pow₀ (by norm_num)
  have hrepresentable {i : ℤ} (hi : |i| ≤ 10 ^ 15) : IsRepresentable i :=
    ⟨i, 0, hi.trans_lt (by norm_num), by norm_num, by simp⟩
  obtain ⟨n, r, hmultiple, hr, -⟩ := exists_hasValue_roundTo hfactor hone hx hp
  rw [Within, hlow.le_iff hx, hx.le_iff hhigh] at hwithin
  rw [Within, hlow.le_iff hr, hr.le_iff hhigh]
  constructor
  · have hnegative : -l * 10 ^ places = (-i : ℤ) := by
      rw [neg_mul, hi, Int.cast_neg]
    have hneg := hmultiple.neg.le_of_le hpos hnegative hlow.isRepresentable.neg
      (hrepresentable (by rwa [abs_neg])) (neg_le_neg hwithin.1)
    linarith
  · exact hmultiple.le_of_le hpos hj hhigh.isRepresentable (hrepresentable hjl) hwithin.2

/-- Lightness and alpha stay as they are when they are rounded and limited again. -/
theorem roundTo_unit (hplaces : places ≤ 15) (hx : Within 0.0 1.0 x) :
    unit (roundTo (powNat 10.0 places) x) = roundTo (powNat 10.0 places) x ∧
      roundTo (powNat 10.0 places) (roundTo (powNat 10.0 places) x) =
        roundTo (powNat 10.0 places) x := by
  obtain ⟨p, hp, hlow, hhigh⟩ := exists_hasValue_of_within hasValue_zero hasValue_one hx
  have hle : |p| ≤ 1 := abs_le.mpr ⟨by linarith, hhigh⟩
  have hlarge : (10 : ℤ) ^ places ≤ 10 ^ 15 := pow_le_pow_right₀ (by norm_num) hplaces
  have hwithin := roundTo_within (i := 0) (j := 10 ^ places) hplaces hasValue_zero hasValue_one
    (by simp) (by simp) (by norm_num) (by rwa [abs_of_pos (by positivity)]) hp hle hx
  obtain ⟨r, hr, hrlow, hrhigh⟩ := exists_hasValue_of_within hasValue_zero hasValue_one hwithin
  exact ⟨unit_eq_self hwithin,
    roundTo_roundTo hplaces hp hle hr (abs_le.mpr ⟨by linarith, hrhigh⟩)⟩

/-- One stays one when it is rounded. -/
theorem same_roundTo_one (hplaces : places ≤ 15) (hx : same x 1.0 = true) :
    same (roundTo (powNat 10.0 places) x) 1.0 = true := by
  have hwithin : Within 1.0 1.0 x := by
    rw [same, Bool.and_eq_true, decide_eq_true_eq, decide_eq_true_eq] at hx
    exact ⟨hx.2, hx.1⟩
  obtain ⟨p, hp, hlow, hhigh⟩ := exists_hasValue_of_within hasValue_one hasValue_one hwithin
  have hlarge : |(10 : ℤ) ^ places| ≤ 10 ^ 15 := by
    rw [abs_of_pos (by positivity)]
    exact pow_le_pow_right₀ (by norm_num) hplaces
  have hrounded := roundTo_within hplaces hasValue_one hasValue_one (i := 10 ^ places)
    (j := 10 ^ places) (by simp) (by simp) hlarge hlarge hp
    (abs_le.mpr ⟨by linarith, hhigh⟩) hwithin
  rw [same, decide_eq_true hrounded.1, decide_eq_true hrounded.2]
  rfl

/-- Without decimals an axis is rounded to zero or out of its range, and limiting it again does not
change what it is rounded to. -/
theorem roundTo_axis_zero (hx : Within (-Lab.axisLimit) Lab.axisLimit x) :
    roundTo (powNat 10.0 0) (Lab.axis (roundTo (powNat 10.0 0) x)) = roundTo (powNat 10.0 0) x := by
  have hlimit : HasValue Lab.axisLimit (1 / 2) := hasValue_half
  obtain ⟨p, hp, hlow, hhigh⟩ := exists_hasValue_of_within hlimit.neg hlimit hx
  have hhalf : |p| ≤ 1 / 2 := abs_le.mpr ⟨hlow, hhigh⟩
  obtain ⟨n, r, ⟨⟨y, hy, hn⟩, hquotient⟩, hr, hplain⟩ :=
    exists_hasValue_roundTo (hasValue_powNat_ten (Nat.zero_le 22)) le_rfl hp (by linarith)
  rw [pow_zero, mul_one] at hy
  rw [pow_zero, div_one] at hquotient
  have hyhalf := hy.abs_le_of_abs_le hlimit.isRepresentable hhalf
  have hone : |n| ≤ 1 := by
    have htriangle := abs_sub_abs_le_abs_sub (n : ℝ) y
    rw [abs_sub_comm] at htriangle
    have hcast : |(n : ℝ)| ≤ 1 := by linarith
    exact_mod_cast hcast
  have hrn : r = n := hquotient.eq_of_isRepresentable
    ⟨n, 0, hone.trans_lt (by norm_num), by norm_num, by simp⟩
  -- The result is one of three floats, and these are computed.
  generalize roundTo (powNat 10.0 0) x = z at hr hplain ⊢
  obtain ⟨hneg, hpos⟩ := abs_le.mp hone
  obtain hn | hn | hn : n = -1 ∨ n = 0 ∨ n = 1 := by omega
  · have hz : HasValue z (-1) := by simpa [hrn, hn] using hr
    rw [hz.eq_of_isPlain hasValue_one.neg hplain (hasValue_one.neg.isPlain (by norm_num))]
    decide +kernel
  · have hz : HasValue z 0 := by simpa [hrn, hn] using hr
    rw [hz.eq_of_isPlain hasValue_zero hplain isPlain_zero]
    decide +kernel
  · have hz : HasValue z 1 := by simpa [hrn, hn] using hr
    rw [hz.eq_of_isPlain hasValue_one hplain (hasValue_one.isPlain one_ne_zero)]
    decide +kernel

/-- An axis is rounded to the same again when it is limited in between. -/
theorem roundTo_axis (hplaces : places ≤ 15) (hx : Within (-Lab.axisLimit) Lab.axisLimit x) :
    roundTo (powNat 10.0 places) (Lab.axis (roundTo (powNat 10.0 places) x)) =
      roundTo (powNat 10.0 places) x := by
  cases places with
  | zero => exact roundTo_axis_zero hx
  | succ places =>
    have hlimit : HasValue Lab.axisLimit (1 / 2) := hasValue_half
    obtain ⟨p, hp, hlow, hhigh⟩ := exists_hasValue_of_within hlimit.neg hlimit hx
    have hle : |p| ≤ 1 := abs_le.mpr ⟨by linarith, by linarith⟩
    have hlarge : 5 * (10 : ℤ) ^ places ≤ 10 ^ 15 := by
      have hpower : (10 : ℤ) ^ (places + 1) ≤ 10 ^ 15 := pow_le_pow_right₀ (by norm_num) hplaces
      rw [pow_succ] at hpower
      linarith [pow_pos (by norm_num : (0 : ℤ) < 10) places]
    have hwithin := roundTo_within (i := -(5 * 10 ^ places)) (j := 5 * 10 ^ places) hplaces
      hlimit.neg hlimit (by push_cast; ring) (by push_cast; ring)
      (by rwa [abs_neg, abs_of_pos (by positivity)]) (by rwa [abs_of_pos (by positivity)]) hp hle hx
    obtain ⟨r, hr, hrlow, hrhigh⟩ := exists_hasValue_of_within hlimit.neg hlimit hwithin
    rw [axis_eq_self hwithin]
    exact roundTo_roundTo hplaces hp hle hr (abs_le.mpr ⟨by linarith, by linarith⟩)

end Channels

/-! ## Texts -/

/-- Alpha is written because it is not one, but it is rounded to one. -/
def ShowsOne (places : ℕ) (c : Color Float) : Prop :=
  same c.alpha 1.0 = false ∧ writeChannel (powNat 10.0 places) c.alpha = ['1']

instance (places : ℕ) (c : Color Float) : Decidable (c.ShowsOne places) :=
  inferInstanceAs (Decidable (_ ∧ _))

/-- There is no slash in the notation without alpha. -/
theorem no_slash_functionalText {x y z : List Char} (hx : IsField x) (hy : IsField y)
    (hz : IsField z) : '/' ∉ functionalText x y z [] := by
  have hcoordinates := no_slash_coordinateText hx hy hz
  exact List.not_mem_append (by decide)
    (List.not_mem_append (List.not_mem_append hcoordinates List.not_mem_nil) (by decide))

/-- With alpha there is one. -/
theorem slash_mem_functionalText (x y z w : List Char) :
    '/' ∈ functionalText x y z (alphaText w) := by
  have hslash : '/' ∈ alphaText w := List.mem_cons_of_mem _ List.mem_cons_self
  exact List.mem_append_right _ (List.mem_append_left _ (List.mem_append_right _ hslash))

/-- A channel is written as one exactly if it is rounded to one. -/
theorem writeChannel_eq_one_iff {places : ℕ} {x : Float} {r : ℝ}
    (hr : HasValue (roundTo (powNat 10.0 places) x) r)
    (hplain : IsPlain (roundTo (powNat 10.0 places) x)) :
    writeChannel (powNat 10.0 places) x = ['1'] ↔
      same (roundTo (powNat 10.0 places) x) 1.0 = true := by
  have hone : Binary64.write 1.0 = ['1'] := by decide +kernel
  have hread := (readsBack_roundTo hr hplain).read?_eq
  rw [hr.same_iff hasValue_one]
  constructor
  · intro htext
    have hread' : (Numeral.read? ['1'] : Option Float) = some 1.0 := by decide +kernel
    rw [htext, hread'] at hread
    have hvalue := hr
    rw [← Option.some.inj hread] at hvalue
    exact hvalue.2.symm.trans hasValue_one.2
  · rintro rfl
    have hrounded := hr.eq_of_isPlain hasValue_one hplain (hasValue_one.isPlain one_ne_zero)
    exact (congrArg Numeral.write hrounded).trans hone

section Again

variable {c : Color Float} {places : ℕ}

/-- The coordinates of a color are written as before when its text is read. -/
theorem writeChannel_reread (hc : c.IsNormal) (hplaces : places ≤ 15) :
    let channel := writeChannel (powNat 10.0 places)
    channel (c.reread places).lab.lightness = channel c.lab.lightness ∧
      channel (c.reread places).lab.a = channel c.lab.a ∧
      channel (c.reread places).lab.b = channel c.lab.b := by
  obtain ⟨hunit, hlightness⟩ := roundTo_unit hplaces hc.lightness
  refine ⟨congrArg Numeral.write ?_, congrArg Numeral.write (roundTo_axis hplaces hc.a),
    congrArg Numeral.write (roundTo_axis hplaces hc.b)⟩
  change roundTo _ (unit (roundTo _ c.lab.lightness)) = _
  rw [hunit, hlightness]

/-- Alpha is written as one exactly if it is rounded to one. -/
theorem writeChannel_alpha_eq_one_iff (hc : c.IsNormal) (hplaces : places ≤ 15) :
    writeChannel (powNat 10.0 places) c.alpha = ['1'] ↔
      same (roundTo (powNat 10.0 places) c.alpha) 1.0 = true := by
  have hfactor := hasValue_powNat_ten (n := places) (by omega)
  obtain ⟨p, hp, hle⟩ := exists_hasValue_of_mem hc (x := c.alpha) (by simp)
  obtain ⟨n, r, -, hr, hplain⟩ :=
    exists_hasValue_roundTo hfactor (one_le_pow₀ (by norm_num)) hp hle
  exact writeChannel_eq_one_iff hr hplain

/-- The alpha that is read is left out again if it was left out. -/
theorem same_alpha_reread_of_same (h : same c.alpha 1.0 = true) :
    same (c.reread places).alpha 1.0 = true := by
  have hone : same (unit (1.0 : Float)) 1.0 = true := by decide +kernel
  rw [reread, if_pos h]
  exact hone

/-- Otherwise it is the alpha that was written. -/
theorem alpha_reread_of_not_same (hc : c.IsNormal) (hplaces : places ≤ 15)
    (h : ¬ same c.alpha 1.0 = true) :
    (c.reread places).alpha = roundTo (powNat 10.0 places) c.alpha := by
  rw [reread, if_neg h]
  exact (roundTo_unit hplaces hc.alpha).1

/-- So the text of what is read has the same fields, and alpha is in it exactly if alpha is not
written as one. -/
theorem write_reread (hc : c.IsNormal) (hplaces : places ≤ 15) :
    let channel := writeChannel (powNat 10.0 places)
    (c.reread places).write places =
      functionalText (channel c.lab.lightness) (channel c.lab.a) (channel c.lab.b)
        (if channel c.alpha = ['1'] then [] else alphaText (channel c.alpha)) := by
  intro channel
  have htext := writeChannel_alpha_eq_one_iff hc hplaces
  obtain ⟨hlightness, ha, hb⟩ := writeChannel_reread hc hplaces
  rw [write_eq_functionalText, hlightness, ha, hb]
  congr 1
  by_cases halpha : same c.alpha 1.0 = true
  · have hshown : channel c.alpha = ['1'] := htext.mpr (same_roundTo_one hplaces halpha)
    rw [if_pos (same_alpha_reread_of_same halpha), if_pos hshown]
  · have hagain : writeChannel (powNat 10.0 places) (roundTo (powNat 10.0 places) c.alpha) =
        channel c.alpha := congrArg Numeral.write (roundTo_unit hplaces hc.alpha).2
    rw [alpha_reread_of_not_same hc hplaces halpha, hagain]
    exact if_congr htext.symm rfl rfl

end Again

/-- A normal color with up to fifteen decimals is written again as its text says when the text is
read, and alpha is in the text exactly if it is not written as one. The only exception is alpha that
is not one but rounded to one: it is written as one, and left out when the text is read and written
again. -/
theorem write_of_read_write {c : Color Float} (hc : c.IsNormal) {places : ℕ}
    (hplaces : places ≤ 15) :
    ∃ parsed : Color Float, read (c.write places) = .ok parsed ∧ parsed.IsNormal ∧
      (¬ c.ShowsOne places → parsed.write places = c.write places ∧
        ('/' ∈ c.write places ↔ writeChannel (powNat 10.0 places) c.alpha ≠ ['1'])) ∧
      (c.ShowsOne places → ∃ x y z, c.write places = functionalText x y z (alphaText ['1']) ∧
        parsed.write places = functionalText x y z []) := by
  have hfactor := hasValue_powNat_ten (n := places) (by omega)
  have hone : (1 : ℝ) ≤ 10 ^ places := one_le_pow₀ (by norm_num)
  have hreads := readsBack_rounded hc hfactor hone
  refine ⟨c.reread places, (read_write_of_factor hc hfactor hone).2, isNormal_make _ _, ?_⟩
  rw [write_reread hc hplaces, write_eq_functionalText, ShowsOne]
  by_cases halpha : same c.alpha 1.0 = true
  · -- Alpha of one is not in the text, and it would have been written as one.
    have hshown : writeChannel (powNat 10.0 places) c.alpha = ['1'] :=
      (writeChannel_alpha_eq_one_iff hc hplaces).mpr (same_roundTo_one hplaces halpha)
    have hslash :=
      no_slash_functionalText hreads.lightness.isField hreads.a.isField hreads.b.isField
    rw [if_pos halpha, if_pos hshown]
    exact ⟨fun _ => ⟨rfl, iff_of_false hslash (not_not_intro hshown)⟩,
      fun h => absurd halpha (Bool.eq_false_iff.mp h.1)⟩
  · rw [if_neg halpha, and_iff_right (Bool.eq_false_iff.mpr halpha)]
    by_cases hshown : writeChannel (powNat 10.0 places) c.alpha = ['1']
    · rw [if_pos hshown, hshown]
      exact ⟨fun h => absurd rfl h, fun _ => ⟨_, _, _, rfl, rfl⟩⟩
    · rw [if_neg hshown]
      exact ⟨fun _ => ⟨rfl, iff_of_true (slash_mem_functionalText _ _ _ _) hshown⟩,
        fun h => absurd h hshown⟩

/-- A color that is written with its alpha. -/
theorem write_of_read_write_translucent :
    let c : Color Float := ⟨⟨0.5, 0.1, -0.1⟩, 0.25⟩
    c.IsNormal ∧ (∃ parsed : Color Float, read (c.write 5) = .ok parsed ∧
      parsed.write 5 = c.write 5) ∧ '/' ∈ c.write 5 := by
  intro c
  have hc : c.IsNormal := by
    constructor <;> constructor <;> decide +kernel
  obtain ⟨parsed, hread, -, hstable, -⟩ := write_of_read_write hc (by decide : 5 ≤ 15)
  obtain ⟨hwrite, hslash⟩ := hstable (by decide +kernel)
  exact ⟨hc, ⟨parsed, hread, hwrite⟩, hslash.mpr (by decide +kernel)⟩

/-- Alpha that is rounded to one is written, and it is left out when the text is read and written
again. -/
theorem write_almost_opaque :
    let c : Color Float := ⟨⟨0.5, 0.1, -0.1⟩, 0.999999⟩
    c.IsNormal ∧ c.write 5 = "oklab(0.5 0.1 -0.1 / 1)".toList ∧
      (read (c.write 5)).toOption.map (fun parsed : Color Float => parsed.write 5) =
        some "oklab(0.5 0.1 -0.1)".toList := by
  intro c
  refine ⟨?_, by decide +kernel, by decide +kernel⟩
  constructor <;> constructor <;> decide +kernel

end ColorWords.Color
