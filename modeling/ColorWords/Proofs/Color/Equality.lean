import ColorWords.Color.Hash
import ColorWords.Proofs.Scalar.Binary64Alike
import ColorWords.Proofs.Scalar.Binary64Fields

/-!
# Equality and hashes of float colors

Two colors are equal exactly if the words that their hashes are made of are the same. Keys compare
as equal only if their bits are, and channels that compare as equal are the same float or zeros of
either sign, which have the same key. So the comparison of channels as they are settles nothing that
keys would decide differently, and equality is an equivalence relation that hashing respects, for
all floats that channels may hold.
-/

namespace ColorWords

open Scalar

namespace Binary64

/-! ## Floats -/

/-- Ranks tell all bit patterns apart. -/
theorem rank_injective {x y : Float} (h : rank x = rank y) : x.toBits = y.toBits := by
  have hx : bits x < 2 ^ 64 := x.toBits.toNat_lt
  have hy : bits y < 2 ^ 64 := y.toBits.toNat_lt
  have hbits : bits x = bits y := by
    unfold rank isNegative signUnit at h
    simp only [decide_eq_true_eq] at h
    omega
  exact UInt64.toNat_inj.mp hbits

/-- Floats are identical under the total order exactly if their bits are the same. -/
theorem identical_iff (x y : Float) : identical x y = true ↔ x.toBits = y.toBits := by
  change (compare (rank x) (rank y) == .eq) = true ↔ _
  rw [beq_iff_eq, compare_eq_iff_eq]
  refine ⟨rank_injective, fun h => ?_⟩
  have hbits : bits x = bits y := congrArg UInt64.toNat h
  rw [rank, rank, isNegative, isNegative, hbits]

/-- A zero is rounded to a zero. -/
theorem isZero_round {x : Float} (h : IsZero x) : IsZero (round x) := by
  obtain ⟨n, hn, hnear⟩ := (hasValue_of_isZero h).round
  have hlt : |n| < 1 := by
    rw [zero_sub, abs_neg] at hnear
    exact_mod_cast hnear.trans_lt one_half_lt_one
  rw [Int.abs_lt_one_iff.mp hlt, Int.cast_zero] at hn
  exact hn.isZero_iff.mpr rfl

end Binary64

namespace Color

open Binary64

/-! ## Keys -/

/-- The key of a channel that is a zero is the zero without a sign. -/
theorem channelKey_of_isZero {x : Float} (h : IsZero x) : channelKey x = 0.0 := by
  have hnumber : numberOrZero x = x := if_pos (OrderedScalar.le_trans h.1 h.2)
  have hproduct : Alike (keyUnits * x) (keyUnits * 0.0) :=
    (Alike.refl keyUnits).mul (Or.inr ⟨h, isZero_zero⟩)
  have hunits : IsZero (keyUnits * 0.0 : Float) := ⟨by decide +kernel, by decide +kernel⟩
  have hkey : IsZero (Numeral.round (keyUnits * numberOrZero x) : Float) := by
    rw [hnumber]
    exact isZero_round (hproduct.symm.isZero hunits)
  exact if_pos (by simp [same, hkey.1, hkey.2])

/-- Channels that are alike have the same key. -/
theorem channelKey_eq_of_alike {x y : Float} (h : Alike x y) : channelKey x = channelKey y := by
  rcases h with rfl | ⟨hx, hy⟩
  · rfl
  · rw [channelKey_of_isZero hx, channelKey_of_isZero hy]

/-- Channels that compare as equal have the same bits in a hash, also where they are limited to a
range first. -/
theorem channelBits_eq_of_same {x y : Float} (h : same x y = true) :
    channelBits x = channelBits y ∧ channelBits (unit x) = channelBits (unit y) ∧
      channelBits (Lab.axis x) = channelBits (Lab.axis y) := by
  have hbits {x y : Float} (h : Alike x y) : channelBits x = channelBits y :=
    congrArg Float.toBits (channelKey_eq_of_alike h)
  have halike := alike_of_same h
  exact ⟨hbits halike, hbits (halike.numberOrZero.clamp _ _),
    hbits (halike.numberOrZero.clamp _ _)⟩

/-! ## Equality -/

/-- Colors whose channels compare as equal hash the same words. -/
theorem hashWords_eq_of_sameChannels {c d : Color Float} (h : sameChannels c d = true) :
    c.hashWords = d.hashWords := by
  simp only [sameChannels, Bool.and_eq_true] at h
  obtain ⟨⟨⟨hlightness, ha⟩, hb⟩, halpha⟩ := h
  simp only [hashWords, Lab.normalized, (channelBits_eq_of_same hlightness).2.1,
    (channelBits_eq_of_same ha).2.2, (channelBits_eq_of_same hb).2.2,
    (channelBits_eq_of_same halpha).1]

/-- Keys are identical one by one exactly if the words of the hashes are the same. -/
theorem identical_keys_iff (c d : Color Float) :
    (List.zipWith identical c.keys d.keys).all id = true ↔ c.hashWords = d.hashWords := by
  simp only [keys, hashWords, channelBits, List.zipWith_cons_cons, List.zipWith_nil_left,
    List.all_cons, List.all_nil, id_eq, Bool.and_eq_true, and_true, identical_iff, List.cons.injEq]

/-- Colors are equal exactly if the words of their hashes are the same. -/
theorem beq_iff (c d : Color Float) : (c == d) = true ↔ c.hashWords = d.hashWords := by
  change (sameChannels c d || (List.zipWith identical c.keys d.keys).all id) = true ↔ _
  rw [Bool.or_eq_true, identical_keys_iff]
  exact or_iff_right_of_imp hashWords_eq_of_sameChannels

/-- Equality of colors is an equivalence relation. -/
instance : EquivBEq (Color Float) where
  rfl := (beq_iff _ _).mpr rfl
  symm h := (beq_iff _ _).mpr ((beq_iff _ _).mp h).symm
  trans h h' := (beq_iff _ _).mpr (((beq_iff _ _).mp h).trans ((beq_iff _ _).mp h'))

/-- Equal colors hash alike. -/
instance : LawfulHashable (Color Float) where
  hash_eq c d h := congrArg (fun words : List UInt64 => hash words) ((beq_iff c d).mp h)

/-- Whatever floats the channels are, colors are equal exactly if the four words that both feed to a
hash are the same, so equality is an equivalence relation that hashing respects. Comparing the
channels as they are accepts only colors that comparing their keys accepts as well. -/
theorem beq_iff_hashWords_eq :
    (∀ c d : Color Float, (c == d) = true ↔ c.hashWords = d.hashWords) ∧
    (∀ c d : Color Float, sameChannels c d = true →
      (List.zipWith identical c.keys d.keys).all id = true) ∧
    (Equivalence fun c d : Color Float => (c == d) = true) ∧
    ∀ c d : Color Float, (c == d) = true → hash c = hash d := by
  refine ⟨beq_iff, fun c d h => ?_, ⟨fun _ => BEq.rfl, BEq.symm, BEq.trans⟩, fun _ _ => hash_eq⟩
  exact (identical_keys_iff c d).mpr (hashWords_eq_of_sameChannels h)

/-- Colors with zeros of different signs compare as equal channel by channel. A color with a channel
that is not a number does not, not even with itself, and equals the same colors by its keys. -/
theorem beq_iff_hashWords_eq_signed_zeros :
    let c : Color Float := ⟨⟨0.5, -0.0, 0.1⟩, 1.0⟩
    let d : Color Float := ⟨⟨0.5, 0.0, 0.1⟩, 1.0⟩
    let e : Color Float := ⟨⟨0.5, 0.0 / 0.0, 0.1⟩, 1.0⟩
    sameChannels c d = true ∧ identical c.lab.a d.lab.a = false ∧ c.hashWords = d.hashWords ∧
      hash c = hash d ∧ sameChannels e e = false ∧ (e == c) = true ∧ (e == d) = true := by
  intro c d e
  obtain ⟨hiff, hkeys, hequivalence, hhash⟩ := beq_iff_hashWords_eq
  have hsame : sameChannels c d = true := by decide +kernel
  have hwords : c.hashWords = d.hashWords := (identical_keys_iff c d).mp (hkeys c d hsame)
  have hequal : (c == d) = true := (hiff c d).mpr hwords
  have hnone : (e == c) = true := (hiff e c).mpr (by decide +kernel)
  exact ⟨hsame, by decide +kernel, hwords, hhash c d hequal, by decide +kernel, hnone,
    hequivalence.trans hnone hequal⟩

end Color

end ColorWords
