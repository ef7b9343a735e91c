import ColorWords.Proofs.Adjective
import ColorWords.Proofs.Phrase

/-!
# The shapes of adjectives

No word has the shape of two families: they differ in the lead letter, or they have the probe at the
same offset and differ in the probe letter. Within a family the tiers differ in length. So a shape
determines the adjective, whatever the order in which families are tried, and the word for an
adjective has its shape.
-/

namespace ColorWords

open Text

/-- The byte at the offset is the letter, small or capital. -/
def IsLetterAt (bytes : List UInt8) (offset : ℕ) (letter : Char) : Prop :=
  ∃ byte, bytes[offset]? = some byte ∧ (byte = letter.toUInt8 ∨ byte = letter.toUpper.toUInt8)

namespace Rule

/-- The shape of a tier: lead and probe stand in their places and the length is that of the tier. -/
structure HasShape (rule : Rule) (tier : Tier) (bytes : List UInt8) : Prop where
  lead : IsLetterAt bytes 0 rule.lead
  probe : IsLetterAt bytes rule.probeOffset rule.probe
  length : bytes.length = rule.lengths.get tier

/-- Letters are small, and no two tiers have forms of the same length. -/
structure IsProper (rule : Rule) : Prop where
  lead : rule.lead.isLower = true
  probe : rule.probe.isLower = true
  lengths : ∀ tier other, rule.lengths.get tier = rule.lengths.get other → tier = other

/-! ## Letters -/

/-- The number of a lowercase form. -/
theorem toNat_lowerByte (byte : UInt8) :
    (lowerByte byte).toNat =
      if 65 ≤ byte.toNat ∧ byte.toNat ≤ 90 then byte.toNat + 32 else byte.toNat := by
  have hcapital : 65 ≤ byte ∧ byte ≤ 90 ↔ 65 ≤ byte.toNat ∧ byte.toNat ≤ 90 := by
    rw [UInt8.le_iff_toNat_le, UInt8.le_iff_toNat_le]
    rfl
  simp only [lowerByte, hcapital]
  split
  · rw [UInt8.toNat_add]
    exact Nat.mod_eq_of_lt (by change byte.toNat + 32 < 256; omega)
  · rfl

/-- The code of a small letter. -/
theorem toNat_of_isLower {letter : Char} (h : letter.isLower = true) :
    97 ≤ letter.toNat ∧ letter.toNat ≤ 122 := by
  simp only [Char.isLower, Bool.and_eq_true, decide_eq_true_eq, ge_iff_le,
    UInt32.le_iff_toNat_le] at h
  exact h

/-- The byte of a small letter. -/
theorem toNat_toUInt8 {letter : Char} (h : letter.isLower = true) :
    letter.toUInt8.toNat = letter.toNat := by
  have hcode := toNat_of_isLower h
  exact (UInt32.toNat_toUInt8 _).trans (Nat.mod_eq_of_lt (by change letter.toNat < 256; omega))

/-- The byte of a capital letter. -/
theorem toNat_toUInt8_toUpper {letter : Char} (h : letter.isLower = true) :
    letter.toUpper.toUInt8.toNat = letter.toNat - 32 := by
  have hcode : 97 ≤ letter.val.toNat ∧ letter.val.toNat ≤ 122 := toNat_of_isLower h
  have hsmall : 'a'.val ≤ letter.val ∧ letter.val ≤ 'z'.val :=
    ⟨UInt32.le_iff_toNat_le.mpr hcode.1, UInt32.le_iff_toNat_le.mpr hcode.2⟩
  have hoffset : ('A'.val - 'a'.val).toNat = 2 ^ 32 - 32 := by decide
  rw [Char.toUpper, dif_pos hsmall]
  change (letter.val + ('A'.val - 'a'.val)).toUInt8.toNat = letter.val.toNat - 32
  rw [UInt32.toNat_toUInt8, UInt32.toNat_add, hoffset]
  omega

/-- A byte has a small letter as its lowercase form exactly if it is this letter, small or
capital. -/
theorem lowerByte_eq_iff {letter : Char} (h : letter.isLower = true) (byte : UInt8) :
    lowerByte byte = letter.toUInt8 ↔ byte = letter.toUInt8 ∨ byte = letter.toUpper.toUInt8 := by
  have hcode := toNat_of_isLower h
  rw [← UInt8.toNat_inj, ← UInt8.toNat_inj, ← UInt8.toNat_inj, toNat_lowerByte, toNat_toUInt8 h,
    toNat_toUInt8_toUpper h]
  split <;> omega

/-- The test for a small letter finds it in either case. -/
theorem letterAt_eq_true_iff {letter : Char} (h : letter.isLower = true) (bytes : List UInt8)
    (offset : ℕ) : letterAt bytes offset letter = true ↔ IsLetterAt bytes offset letter := by
  rw [letterAt, beq_iff_eq, Option.map_eq_some_iff]
  simp only [lowerByte_eq_iff h, IsLetterAt]

/-- There is at most one letter at an offset. -/
theorem toUInt8_eq_of_letterAt {bytes : List UInt8} {offset : ℕ} {x y : Char}
    (hx : letterAt bytes offset x = true) (hy : letterAt bytes offset y = true) :
    x.toUInt8 = y.toUInt8 := by
  rw [letterAt, beq_iff_eq] at hx hy
  exact Option.some.inj (hx.symm.trans hy)

/-! ## Tiers -/

variable {rule : Rule}

/-- The tier of a length is the only one with forms of this length. -/
theorem IsProper.tierOfLength?_eq_some_iff (h : rule.IsProper) (length : ℕ) (tier : Tier) :
    rule.tierOfLength? length = some tier ↔ length = rule.lengths.get tier := by
  have hfound {tier : Tier} (hfind : rule.tierOfLength? length = some tier) :
      length = rule.lengths.get tier := by
    have hlength := List.find?_some hfind
    exact (beq_iff_eq.mp hlength).symm
  refine ⟨hfound, fun hlength => ?_⟩
  cases hfind : rule.tierOfLength? length with
  | none =>
    have hnone := List.find?_eq_none.mp hfind tier (List.mem_finRange tier)
    exact absurd (beq_iff_eq.mpr hlength.symm) hnone
  | some other => rw [h.lengths other tier ((hfound hfind).symm.trans hlength)]

/-- A rule recognizes exactly the shapes of its tiers. -/
theorem IsProper.tier?_eq_some_iff (h : rule.IsProper) (bytes : List UInt8) (tier : Tier) :
    rule.tier? bytes = some tier ↔ rule.HasShape tier bytes := by
  rw [tier?, Option.ite_none_right_eq_some, Bool.and_eq_true, letterAt_eq_true_iff h.lead,
    letterAt_eq_true_iff h.probe, h.tierOfLength?_eq_some_iff]
  constructor
  · rintro ⟨⟨hlead, hprobe⟩, hlength⟩
    exact ⟨hlead, hprobe, hlength⟩
  · rintro ⟨hlead, hprobe, hlength⟩
    exact ⟨⟨hlead, hprobe⟩, hlength⟩

/-- A rule recognizes nothing that ends before the probe. -/
theorem tier?_eq_none_of_length_le (rule : Rule) {bytes : List UInt8}
    (h : bytes.length ≤ rule.probeOffset) : rule.tier? bytes = none := by
  have hprobe : letterAt bytes rule.probeOffset rule.probe = false := by
    rw [letterAt, List.getElem?_eq_none h]
    rfl
  rw [tier?, hprobe, Bool.and_false]
  rfl

end Rule

/-! ## Families -/

namespace Family

/-- The rules of all families are proper. -/
theorem isProper_rule (family : Family) : family.rule.IsProper := by
  cases family <;> exact ⟨by decide, by decide, by decide⟩

/-- Two families differ in the lead, or in the probe at the same offset. -/
theorem letters_ne_of_ne {family other : Family} (h : family ≠ other) :
    family.rule.lead.toUInt8 ≠ other.rule.lead.toUInt8 ∨
      family.rule.probeOffset = other.rule.probeOffset ∧
        family.rule.probe.toUInt8 ≠ other.rule.probe.toUInt8 := by
  have hall : ∀ family ∈ all, ∀ other ∈ all, family ≠ other →
      family.rule.lead.toUInt8 ≠ other.rule.lead.toUInt8 ∨
        family.rule.probeOffset = other.rule.probeOffset ∧
          family.rule.probe.toUInt8 ≠ other.rule.probe.toUInt8 := by decide
  exact hall family (mem_all _) other (mem_all _) h

/-- At most one family recognizes a word. -/
theorem eq_of_tier?_isSome {family other : Family} {bytes : List UInt8}
    (h : (family.rule.tier? bytes).isSome = true) (h' : (other.rule.tier? bytes).isSome = true) :
    family = other := by
  have hletters {family : Family} (h : (family.rule.tier? bytes).isSome = true) :
      Rule.letterAt bytes 0 family.rule.lead = true ∧
        Rule.letterAt bytes family.rule.probeOffset family.rule.probe = true := by
    rw [Rule.tier?] at h
    split at h
    · next hboth => exact Bool.and_eq_true_iff.mp hboth
    · cases h
  obtain ⟨hlead, hprobe⟩ := hletters h
  obtain ⟨hlead', hprobe'⟩ := hletters h'
  by_contra hne
  rcases letters_ne_of_ne hne with hleads | ⟨hoffset, hprobes⟩
  · exact hleads (Rule.toUInt8_eq_of_letterAt hlead hlead')
  · exact hprobes (Rule.toUInt8_eq_of_letterAt (hoffset ▸ hprobe) hprobe')

end Family

namespace Adjective

/-- A word is recognized as an adjective of one of the families exactly if it has its shape. -/
theorem ofBytesIn?_eq_some_iff (families : List Family) (bytes : List UInt8)
    (adjective : Adjective) :
    ofBytesIn? families bytes = some adjective ↔
      adjective.family ∈ families ∧ adjective.family.rule.HasShape adjective.tier bytes := by
  have hfound {found : Adjective} (h : ofBytesIn? families bytes = some found) :
      found.family ∈ families ∧ found.family.rule.tier? bytes = some found.tier := by
    obtain ⟨family, hfamily, hmap⟩ := List.exists_of_findSome?_eq_some h
    obtain ⟨tier, htier, rfl⟩ := Option.map_eq_some_iff.mp hmap
    exact ⟨hfamily, htier⟩
  rw [← (Family.isProper_rule _).tier?_eq_some_iff]
  refine ⟨hfound, ?_⟩
  rintro ⟨hfamily, htier⟩
  cases hresult : ofBytesIn? families bytes with
  | none =>
    have hnone := List.findSome?_eq_none_iff.mp hresult adjective.family hfamily
    rw [htier] at hnone
    cases hnone
  | some found =>
    -- What is recognized has the same family, and so the same tier.
    obtain ⟨-, hfoundTier⟩ := hfound hresult
    obtain ⟨family, tier⟩ := adjective
    obtain ⟨foundFamily, foundTier⟩ := found
    obtain rfl := Family.eq_of_tier?_isSome (Option.isSome_of_eq_some htier)
      (Option.isSome_of_eq_some hfoundTier)
    obtain rfl := Option.some.inj (htier.symm.trans hfoundTier)
    rfl

/-- The order in which families are tried makes no difference. -/
theorem ofBytesIn?_eq_of_perm {families others : List Family} (h : families.Perm others)
    (bytes : List UInt8) : ofBytesIn? families bytes = ofBytesIn? others bytes := by
  refine Option.ext fun adjective => ?_
  rw [ofBytesIn?_eq_some_iff, ofBytesIn?_eq_some_iff, h.mem_iff]

/-- A word is recognized as an adjective exactly if its bytes have the shape. -/
theorem ofBytes?_eq_some_iff (bytes : List UInt8) (adjective : Adjective) :
    ofBytes? bytes = some adjective ↔ adjective.family.rule.HasShape adjective.tier bytes := by
  rw [ofBytes?, ofBytesIn?_eq_some_iff, and_iff_right (Family.mem_all _)]

/-- Words are recognized by their encoding. -/
theorem ofWord?_eq_ofBytes? (word : String) : ofWord? word = ofBytes? (bytes word) := by
  rw [ofWord?, bytes_eq_flatMap]

/-- At most one family recognizes a word, so the order in which families are tried makes no
difference. A word is recognized as an adjective exactly if the letters of the family stand at its
beginning and at the offset of the probe, small or capital, and its encoding has the length of the
tier. The case of letters makes no difference, the word for an adjective is recognized as this
adjective, and no family recognizes a word that ends before its probe. -/
theorem ofBytes?_unambiguous :
    (∀ (bytes : List UInt8) (family other : Family), (family.rule.tier? bytes).isSome = true →
      (other.rule.tier? bytes).isSome = true → family = other) ∧
    (∀ families : List Family, families.Perm Family.all →
      ∀ bytes, ofBytesIn? families bytes = ofBytes? bytes) ∧
    (∀ bytes adjective, ofBytes? bytes = some adjective ↔
      adjective.family.rule.HasShape adjective.tier bytes) ∧
    (∀ word adjective, ofWord? word = some adjective ↔
      adjective.family.rule.HasShape adjective.tier (bytes word)) ∧
    (∀ x y : List UInt8, x.map Rule.lowerByte = y.map Rule.lowerByte → ofBytes? x = ofBytes? y) ∧
    (∀ x y : String, lowered x.toList = lowered y.toList → ofWord? x = ofWord? y) ∧
    (∀ adjective : Adjective, ofWord? adjective.word = some adjective) ∧
    ∀ (bytes : List UInt8) (family : Family), bytes.length ≤ family.rule.probeOffset →
      family.rule.tier? bytes = none := by
  refine ⟨fun bytes family other => Family.eq_of_tier?_isSome,
    fun families hperm bytes => ofBytesIn?_eq_of_perm hperm bytes, ofBytes?_eq_some_iff,
    fun word adjective => ?_, fun x y h => ?_, fun x y => ofWord?_eq_of_lowered_eq,
    ofWord?_word, fun bytes family => family.rule.tier?_eq_none_of_length_le⟩
  · rw [ofWord?_eq_ofBytes?, ofBytes?_eq_some_iff]
  · unfold ofBytes? ofBytesIn?
    simp only [Rule.tier?_eq_of_map_lowerByte_eq _ h]

/-- A letter with an accent has two bytes, so that a word of five characters has the length and the
shape of a longer form. The families are tried in the opposite order as well. -/
theorem ofBytes?_unambiguous_accent :
    let word := "Darké"
    ofWord? word = some ⟨.dark, 1⟩ ∧ ofWord? "dARKé" = ofWord? word ∧
      ofBytesIn? Family.all.reverse (bytes word) = some ⟨.dark, 1⟩ ∧
      (∀ family : Family, (family.rule.tier? (bytes word)).isSome = true → family = .dark) ∧
      ofWord? "darker" = some ⟨.dark, 1⟩ ∧ Family.bright.rule.tier? (bytes "bri") = none := by
  intro word
  obtain ⟨hunique, horder, -, hshape, -, hcase, hword, hshort⟩ := ofBytes?_unambiguous
  have hfound : ofWord? word = some ⟨.dark, 1⟩ := by
    refine (hshape word _).mpr ⟨⟨68, ?_, Or.inr rfl⟩, ⟨114, ?_, Or.inl rfl⟩, ?_⟩ <;>
      decide +kernel
  have htier : (Family.dark.rule.tier? (bytes word)).isSome = true := by decide +kernel
  refine ⟨hfound, hcase _ _ (by decide +kernel), ?_, fun family h => hunique _ _ _ h htier,
    hword ⟨.dark, 1⟩, hshort _ .bright (by decide +kernel)⟩
  rw [horder _ (List.reverse_perm _), ← ofWord?_eq_ofBytes?, hfound]

end Adjective

end ColorWords
