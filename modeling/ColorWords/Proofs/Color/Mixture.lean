import ColorWords.Proofs.Color.Mean
import ColorWords.Proofs.Color.Printed

/-!
# Mixes of normal colors

In exact arithmetic the mean of a channel lies between the least and the greatest value of the
channel, so limiting the channels of a mix of normal colors changes nothing. What all colors of a
list share, their mix has as well: the color itself if they are the same, and the keys if they are
equal, since rounding keeps the order of numbers.
-/

namespace ColorWords.Color

open Scalar

/-- One of the four channels of a color. -/
inductive Channel where
  | lightness
  | a
  | b
  | alpha

/-- The value of a channel. -/
def Channel.of {α : Type} : Channel → Color α → α
  | lightness, c => c.lab.lightness
  | a, c => c.lab.a
  | b, c => c.lab.b
  | alpha, c => c.alpha

/-- Colors with the same value of every channel are the same. -/
theorem eq_of_channels {α : Type} {c d : Color α}
    (h : ∀ channel : Channel, channel.of c = channel.of d) : c = d := by
  obtain ⟨⟨lightness, a, b⟩, alpha⟩ := c
  obtain ⟨⟨lightness', a', b'⟩, alpha'⟩ := d
  obtain rfl : lightness = lightness' := h .lightness
  obtain rfl : a = a' := h .a
  obtain rfl : b = b' := h .b
  obtain rfl : alpha = alpha' := h .alpha
  rfl

variable {K : Type} [Field K] [LinearOrder K]

/-- The value of the channel lies between the least and the greatest one of the listed colors. -/
def Channel.IsBetween (channel : Channel) (colors : List (Color K)) (c : Color K) : Prop :=
  ∃ least ∈ colors, ∃ greatest ∈ colors,
    (∀ d ∈ colors, Within (channel.of least) (channel.of greatest) (channel.of d)) ∧
      Within (channel.of least) (channel.of greatest) (channel.of c)

variable [IsStrictOrderedRing K]

/-- The mean of numbers in a range is in the range. -/
theorem mean_within {ι : Type} {items : List ι} (hitems : items ≠ []) {f : ι → K} {low high : K}
    (h : ∀ x ∈ items, Within low high (f x)) :
    Within low high ((items.map f).sum / items.length) := by
  have hlength : (0 : K) < items.length := Nat.cast_pos.mpr (List.length_pos_iff.mpr hitems)
  have hmap : ∀ y ∈ items.map f, Within low high y := List.forall_mem_map.mpr h
  have hleast := List.card_nsmul_le_sum (items.map f) low fun y hy => (hmap y hy).1
  have hgreatest := List.sum_le_card_nsmul (items.map f) high fun y hy => (hmap y hy).2
  rw [nsmul_eq_mul, mul_comm, List.length_map] at hleast hgreatest
  exact ⟨(le_div_iff₀ hlength).mpr hleast, (div_le_iff₀ hlength).mpr hgreatest⟩

/-- Each channel of a mix of normal colors is the mean of the channel. -/
theorem channel_mix {colors : List (Color K)} (hcolors : colors ≠ [])
    (hnormal : ∀ c ∈ colors, c.IsNormal) (channel : Channel) :
    channel.of (mix colors) = (colors.map channel.of).sum / colors.length := by
  rw [mix_eq_mean hcolors]
  -- Limiting the channels of the mean changes none of them.
  cases channel with
  | lightness => exact unit_eq_self (mean_within hcolors fun c hc => (hnormal c hc).lightness)
  | a => exact axis_eq_self (mean_within hcolors fun c hc => (hnormal c hc).a)
  | b => exact axis_eq_self (mean_within hcolors fun c hc => (hnormal c hc).b)
  | alpha => exact unit_eq_self (mean_within hcolors fun c hc => (hnormal c hc).alpha)

/-- Each channel of a mix of normal colors lies between the values of the channel. -/
theorem isBetween_mix {colors : List (Color K)} (hcolors : colors ≠ [])
    (hnormal : ∀ c ∈ colors, c.IsNormal) (channel : Channel) :
    channel.IsBetween colors (mix colors) := by
  obtain ⟨least, hleast⟩ := Option.ne_none_iff_exists'.mp
    (mt (List.argmin_eq_none (f := channel.of)).mp hcolors)
  obtain ⟨greatest, hgreatest⟩ := Option.ne_none_iff_exists'.mp
    (mt (List.argmax_eq_none (f := channel.of)).mp hcolors)
  have hwithin : ∀ d ∈ colors, Within (channel.of least) (channel.of greatest) (channel.of d) :=
    fun d hd => ⟨List.le_of_mem_argmin hd hleast, List.le_of_mem_argmax hd hgreatest⟩
  refine ⟨least, List.argmin_mem hleast, greatest, List.argmax_mem hgreatest, hwithin, ?_⟩
  rw [channel_mix hcolors hnormal]
  exact mean_within hcolors hwithin

/-- What is the same of one channel of all colors, under a function that keeps the order, is the
same of their mix. -/
theorem map_channel_mix {colors : List (Color K)} (hcolors : colors ≠ [])
    (hnormal : ∀ c ∈ colors, c.IsNormal) (channel : Channel) {f : K → K} (hf : Monotone f) {x : K}
    (h : ∀ d ∈ colors, f (channel.of d) = x) : f (channel.of (mix colors)) = x := by
  obtain ⟨least, hleast, greatest, hgreatest, -, hbelow, habove⟩ :=
    isBetween_mix hcolors hnormal channel
  exact le_antisymm ((hf habove).trans_eq (h greatest hgreatest))
    ((h least hleast).symm.trans_le (hf hbelow))

/-- Colors that are the same mix to this color. -/
theorem mix_eq_of_forall_eq {colors : List (Color K)} (hcolors : colors ≠ [])
    (hnormal : ∀ c ∈ colors, c.IsNormal) {c : Color K} (h : ∀ d ∈ colors, d = c) :
    mix colors = c :=
  eq_of_channels fun channel => map_channel_mix hcolors hnormal channel monotone_id
    fun d hd => congrArg channel.of (h d hd)

/-! ## Equality -/

omit [IsStrictOrderedRing K] in
/-- In exact arithmetic numbers that compare as the same are the same. -/
theorem eq_of_same {x y : K} (h : same x y = true) : x = y := by
  simp only [same, Bool.and_eq_true, decide_eq_true_eq] at h
  exact le_antisymm h.1 h.2

omit [IsStrictOrderedRing K] in
/-- In exact arithmetic colors whose channels compare as the same are the same. -/
theorem eq_of_sameChannels {c d : Color K} (h : sameChannels c d = true) : c = d := by
  simp only [sameChannels, Bool.and_eq_true] at h
  obtain ⟨⟨⟨hlightness, ha⟩, hb⟩, halpha⟩ := h
  refine eq_of_channels fun channel => ?_
  cases channel with
  | lightness => exact eq_of_same hlightness
  | a => exact eq_of_same ha
  | b => exact eq_of_same hb
  | alpha => exact eq_of_same halpha

variable [Numeral K]

omit [IsStrictOrderedRing K] in
/-- In exact arithmetic equal colors have the same keys. -/
theorem keys_eq_of_beq {c d : Color K} (h : (c == d) = true) : c.keys = d.keys := by
  have hidentical {x y : K} (h : identical x y = true) : x = y :=
    compare_eq_iff_eq.mp (beq_iff_eq.mp h)
  change (sameChannels c d || (List.zipWith identical c.keys d.keys).all id) = true at h
  rcases Bool.or_eq_true_iff.mp h with hchannels | hkeys
  · rw [eq_of_sameChannels hchannels]
  · simp only [keys, List.zipWith_cons_cons, List.zipWith_nil_left, List.all_cons, List.all_nil,
      id_eq, Bool.and_eq_true, and_true] at hkeys
    obtain ⟨hlightness, ha, hb, halpha⟩ := hkeys
    simp only [keys, hidentical hlightness, hidentical ha, hidentical hb, hidentical halpha]

/-- If rounding keeps the order, so do keys. -/
theorem monotone_channelKey (hround : Monotone (Numeral.round : K → K)) :
    Monotone (channelKey : K → K) := by
  have hunits : (0 : K) ≤ keyUnits := by norm_num [keyUnits]
  intro x y hxy
  rw [channelKey_eq_round, channelKey_eq_round]
  exact hround (mul_le_mul_of_nonneg_left hxy hunits)

/-- The keys of a normal color are those of its channels. -/
theorem IsNormal.keys_eq {c : Color K} (hc : c.IsNormal) :
    c.keys = [Channel.lightness, .a, .b, .alpha].map fun channel => channelKey (channel.of c) := by
  rw [keys, hc.normalized_eq]
  rfl

/-- Normal colors that equal a color mix to a color that equals it. -/
theorem mix_beq_of_forall_beq (hround : Monotone (Numeral.round : K → K)) {colors : List (Color K)}
    (hcolors : colors ≠ []) (hnormal : ∀ c ∈ colors, c.IsNormal) {c : Color K}
    (h : ∀ d ∈ colors, (d == c) = true) : (mix colors == c) = true := by
  obtain ⟨d, hd⟩ := List.exists_mem_of_ne_nil colors hcolors
  refine beq_of_keys_eq (Eq.trans ?_ (keys_eq_of_beq (h d hd)))
  rw [(isNormal_mix colors).keys_eq, (hnormal d hd).keys_eq]
  refine List.map_congr_left fun channel hchannel => ?_
  refine map_channel_mix hcolors hnormal channel (monotone_channelKey hround) fun e he => ?_
  have hkeys := (keys_eq_of_beq (h e he)).trans (keys_eq_of_beq (h d hd)).symm
  rw [(hnormal e he).keys_eq, (hnormal d hd).keys_eq, List.map_inj_left] at hkeys
  exact hkeys channel hchannel

/-- In exact arithmetic every channel of a mix of normal colors is the mean of the channel, which
lies between its least and its greatest value. Neither the order of the colors matters nor whether
all of them are repeated. Colors that are the same mix to this color, and, if rounding keeps the
order of numbers, colors that are equal mix to an equal one. No colors mix to the neutral color. -/
theorem mix_is_mean :
    (∀ colors : List (Color K), colors ≠ [] → (∀ c ∈ colors, c.IsNormal) →
      (∀ channel : Channel,
        channel.of (mix colors) = (colors.map channel.of).sum / colors.length ∧
          channel.IsBetween colors (mix colors)) ∧
      (∀ others : List (Color K), colors.Perm others → mix others = mix colors) ∧
      (∀ k, 1 ≤ k → mix (List.replicate k colors).flatten = mix colors) ∧
      (∀ c, (∀ d ∈ colors, d = c) → mix colors = c) ∧
      (Monotone (Numeral.round : K → K) → ∀ c, (∀ d ∈ colors, (d == c) = true) →
        (mix colors == c) = true)) ∧
    mix ([] : List (Color K)) = neutral :=
  ⟨fun colors hcolors hnormal =>
    ⟨fun channel => ⟨channel_mix hcolors hnormal channel, isBetween_mix hcolors hnormal channel⟩,
      fun _ hperm => (mix_eq_of_perm hperm).symm, fun _ hk => mix_flatten_replicate hk colors,
      fun _ h => mix_eq_of_forall_eq hcolors hnormal h,
      fun hround _ h => mix_beq_of_forall_beq hround hcolors hnormal h⟩, rfl⟩

/-- Two colors that are equal, though not the same, mix to a color between them that is equal to
both. -/
theorem mix_is_mean_equal :
    let c : Color ℚ := ⟨⟨0.5, 0.25, -0.5⟩, 1.0⟩
    let d : Color ℚ := ⟨⟨0.5 + 1e-13, 0.25, -0.5⟩, 1.0⟩
    (∀ e ∈ [c, d], e.IsNormal) ∧ (mix [c, d]).lab.lightness = 0.5 + 5e-14 ∧
      Channel.lightness.IsBetween [c, d] (mix [c, d]) ∧ mix [d, c] = mix [c, d] ∧
      mix [c, d, c, d] = mix [c, d] ∧ mix [c, c] = c ∧
      (∀ e ∈ [c, d], (e == c) = true) ∧ (mix [c, d] == c) = true := by
  intro c d
  have hc : c.IsNormal := by constructor <;> constructor <;> norm_num [Lab.axisLimit, c]
  have hd : d.IsNormal := by constructor <;> constructor <;> norm_num [Lab.axisLimit, d]
  have hnormal : ∀ e ∈ [c, d], e.IsNormal := by simp [hc, hd]
  have hsame : ∀ e ∈ [c, c], e.IsNormal := by simp [hc]
  have hround : Monotone (Numeral.round : ℚ → ℚ) :=
    fun _ _ hxy => Int.cast_le.mpr (Rational.monotone_roundAway hxy)
  have hbeq : ∀ e ∈ [c, d], (e == c) = true := by decide +kernel
  obtain ⟨hmixes, -⟩ := mix_is_mean (K := ℚ)
  obtain ⟨hchannel, hperm, hrepeat, -, hequal⟩ := hmixes [c, d] (List.cons_ne_nil _ _) hnormal
  obtain ⟨-, -, -, hconstant, -⟩ := hmixes [c, c] (List.cons_ne_nil _ _) hsame
  obtain ⟨hmean, hbetween⟩ := hchannel .lightness
  refine ⟨hnormal, hmean.trans ?_, hbetween, hperm [d, c] (.swap d c []), hrepeat 2 one_le_two,
    hconstant c (by simp), hbeq, hequal hround c hbeq⟩
  norm_num [Channel.of, c, d]

end ColorWords.Color
