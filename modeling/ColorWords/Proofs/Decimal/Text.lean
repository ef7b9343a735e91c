import ColorWords.Decimal.Literal
import ColorWords.Proofs.Text.Ascii

/-!
# The text of decimals

The positional text of a decimal consists of digits and at most one point between them. Read as
a literal it is a decimal of the same value, for zeros before the digits count nothing and each
zero after them counts as a factor of ten.
-/

namespace ColorWords

/-! ## Reading digits -/

namespace Literal

/-- The digits of a number denote it. -/
theorem naturalOf_toDigits (n : ℕ) : naturalOf (Nat.toDigits 10 n) = n :=
  Nat.ofDigitChars_toDigits (by decide) (by decide)

/-- Leading zeros do not count. -/
theorem naturalOf_replicate_append (zeros : ℕ) (digits : List Char) :
    naturalOf (List.replicate zeros '0' ++ digits) = naturalOf digits := by
  change Nat.ofDigitChars 10 (List.replicate zeros '0' ++ digits) 0 = Nat.ofDigitChars 10 digits 0
  rw [Nat.ofDigitChars_append, Nat.ofDigitChars_replicate_zero, Nat.mul_zero]

/-- Each trailing zero counts as a factor of ten. -/
theorem naturalOf_append_replicate (digits : List Char) (zeros : ℕ) :
    naturalOf (digits ++ List.replicate zeros '0') = naturalOf digits * 10 ^ zeros := by
  change Nat.ofDigitChars 10 (digits ++ List.replicate zeros '0') 0 =
    Nat.ofDigitChars 10 digits 0 * 10 ^ zeros
  rw [Nat.ofDigitChars_append, Nat.ofDigitChars_replicate_zero, Nat.mul_comm]

variable {whole places : List Char}

/-- A nonempty list of digits is a decimal. -/
theorem readDecimal?_of_isDigit (hwhole : ∀ c ∈ whole, c.isDigit = true) (hne : whole ≠ []) :
    readDecimal? whole = some ⟨naturalOf whole, 0⟩ := by
  have htake : whole.takeWhile Char.isDigit = whole := List.takeWhile_eq_self_iff.mpr hwhole
  have hdrop : whole.dropWhile Char.isDigit = [] := List.dropWhile_eq_nil_iff.mpr hwhole
  unfold readDecimal?
  simp [htake, hdrop, hne, readExponent?]

/-- Digits around a point are a decimal with as many places as there are digits after it. -/
theorem readDecimal?_point (hwhole : ∀ c ∈ whole, c.isDigit = true) (hne : whole ≠ [])
    (hplaces : ∀ c ∈ places, c.isDigit = true) :
    readDecimal? (whole ++ '.' :: places) = some ⟨naturalOf (whole ++ places), -places.length⟩ := by
  have htake : (whole ++ '.' :: places).takeWhile Char.isDigit = whole := by
    rw [List.takeWhile_append_of_pos hwhole, List.takeWhile_cons_of_neg (by decide),
      List.append_nil]
  have hdrop : (whole ++ '.' :: places).dropWhile Char.isDigit = '.' :: places := by
    rw [List.dropWhile_append_of_pos hwhole, List.dropWhile_cons_of_neg (by decide)]
  have htakePlaces : places.takeWhile Char.isDigit = places :=
    List.takeWhile_eq_self_iff.mpr hplaces
  have hdropPlaces : places.dropWhile Char.isDigit = [] := List.dropWhile_eq_nil_iff.mpr hplaces
  unfold readDecimal?
  simp [htake, hdrop, htakePlaces, hdropPlaces, hne, readExponent?]

/-- No word for a number that is not finite begins with a digit. -/
theorem readUnsigned?_of_isDigit_head {c : Char} (hc : c.isDigit = true) (rest : List Char) :
    readUnsigned? (c :: rest) = (readDecimal? (c :: rest)).map .finite := by
  have hi : c ≠ 'i' := fun heq => absurd (heq ▸ hc) (by decide)
  have hn : c ≠ 'n' := fun heq => absurd (heq ▸ hc) (by decide)
  simp [readUnsigned?, Text.toLower_of_isDigit hc, hi, hn]

/-- A text that begins with a digit has no sign. -/
theorem read?_of_isDigit_head {c : Char} (hc : c.isDigit = true) (rest : List Char) :
    read? (c :: rest) = (readDecimal? (c :: rest)).map fun d => (false, .finite d) := by
  have hsign : readSign (c :: rest) = (false, c :: rest) := by
    unfold readSign
    split
    · next heq => exact absurd ((List.cons.inj heq).1 ▸ hc) (by decide)
    · next heq => exact absurd ((List.cons.inj heq).1 ▸ hc) (by decide)
    · rfl
  simp only [read?, hsign, readUnsigned?_of_isDigit_head hc, Option.map_map]
  rfl

/-- A minus may stand before the first digit. -/
theorem read?_minus {c : Char} (hc : c.isDigit = true) (rest : List Char) :
    read? ('-' :: c :: rest) = (readDecimal? (c :: rest)).map fun d => (true, .finite d) := by
  simp only [read?, readSign, readUnsigned?_of_isDigit_head hc, Option.map_map]
  rfl

end Literal

/-! ## Writing decimals -/

namespace Decimal

/-- The number that a decimal stands for. -/
def value (d : Decimal) : ℚ := d.coefficient * 10 ^ d.exponent

/-- The decimal that the positional text spells, which has no positive exponent. -/
def expanded (d : Decimal) : Decimal :=
  if 0 ≤ d.exponent then ⟨d.coefficient * 10 ^ d.exponent.toNat, 0⟩ else d

/-- Expanding changes the form of a decimal only. -/
theorem value_expanded (d : Decimal) : d.expanded.value = d.value := by
  unfold expanded value
  split
  · next h =>
    have hpower : (10 : ℚ) ^ d.exponent.toNat = 10 ^ d.exponent := by
      rw [← zpow_natCast, Int.toNat_of_nonneg h]
    push_cast
    rw [hpower, mul_one]
  · rfl

/-- Digits are digits. -/
theorem isDigit_of_mem_digits {d : Decimal} {c : Char} (hc : c ∈ d.digits) : c.isDigit = true :=
  Nat.isDigit_of_mem_toDigits (by decide) (by decide) hc

/-- The text is made of digits, or of digits before a point and as many after it as there are
places. Zeros fill up what is missing on either side. -/
theorem exists_write_eq (d : Decimal) :
    ∃ whole places : List Char, (∀ c ∈ whole ++ places, c.isDigit = true) ∧ whole ≠ [] ∧
      d.expanded = ⟨Literal.naturalOf (whole ++ places), -places.length⟩ ∧
      (places = [] ∧ d.write = whole ∨ places ≠ [] ∧ d.write = whole ++ '.' :: places) := by
  have hzero {n : ℕ} : ∀ c ∈ List.replicate n '0', c.isDigit = true :=
    fun c hc => List.eq_of_mem_replicate hc ▸ rfl
  have hdigits : ∀ c ∈ d.digits, c.isDigit = true := fun _ => isDigit_of_mem_digits
  by_cases h : 0 ≤ d.exponent
  · have hwrite : d.write = d.digits ++ List.replicate d.exponent.toNat '0' := if_pos h
    refine ⟨d.write, [], ?_, ?_, ?_, Or.inl ⟨rfl, rfl⟩⟩
    · rw [List.append_nil, hwrite]
      exact List.forall_mem_append.mpr ⟨hdigits, hzero⟩
    · rw [hwrite]
      exact List.append_ne_nil_of_left_ne_nil Nat.toDigits_ne_nil _
    · rw [List.append_nil, hwrite, Literal.naturalOf_append_replicate, digits,
        Literal.naturalOf_toDigits, expanded, if_pos h]
      rfl
  · obtain ⟨places, hplaces⟩ : ∃ places : ℕ, (-d.exponent).toNat = places := ⟨_, rfl⟩
    set padded := List.replicate (places + 1 - d.digits.length) '0' ++ d.digits with hpadded
    have hlength : places + 1 ≤ padded.length := by
      rw [hpadded, List.length_append, List.length_replicate]
      omega
    have hjoin := List.take_append_drop (padded.length - places) padded
    refine ⟨padded.take (padded.length - places), padded.drop (padded.length - places),
      ?_, ?_, ?_, Or.inr ⟨?_, ?_⟩⟩
    · rw [hjoin]
      exact List.forall_mem_append.mpr ⟨hzero, hdigits⟩
    · rw [← List.length_pos_iff, List.length_take]
      omega
    · have hvalue : Literal.naturalOf padded = d.coefficient := by
        rw [hpadded, Literal.naturalOf_replicate_append, digits, Literal.naturalOf_toDigits]
      rw [hjoin, hvalue, List.length_drop, expanded, if_neg h, Nat.sub_sub_self (by omega),
        ← hplaces, Int.toNat_of_nonneg (by omega), Int.neg_neg]
    · rw [← List.length_pos_iff, List.length_drop]
      omega
    · rw [write, if_neg h, hplaces]

/-- The text begins with a digit. -/
theorem exists_write_eq_cons (d : Decimal) :
    ∃ c rest, d.write = c :: rest ∧ c.isDigit = true := by
  obtain ⟨whole, places, hdigits, hne, -, hwrite⟩ := d.exists_write_eq
  obtain ⟨c, rest, rfl⟩ := List.exists_cons_of_ne_nil hne
  have hc : c.isDigit = true := hdigits c (by simp)
  rcases hwrite with ⟨-, hwrite⟩ | ⟨-, hwrite⟩
  · exact ⟨c, rest, hwrite, hc⟩
  · exact ⟨c, rest ++ '.' :: places, hwrite, hc⟩

/-- The text reads as the expanded decimal. -/
theorem readDecimal?_write (d : Decimal) : Literal.readDecimal? d.write = some d.expanded := by
  obtain ⟨whole, places, hdigits, hne, hexpanded, hwrite⟩ := d.exists_write_eq
  obtain ⟨hwhole, hplaces⟩ := List.forall_mem_append.mp hdigits
  rw [hexpanded]
  rcases hwrite with ⟨rfl, hwrite⟩ | ⟨-, hwrite⟩
  · rw [hwrite, Literal.readDecimal?_of_isDigit hwhole hne, List.append_nil]
    rfl
  · rw [hwrite, Literal.readDecimal?_point hwhole hne hplaces]

/-- The text reads as a literal without a sign, and after a minus as one with a sign. -/
theorem read?_write (d : Decimal) :
    Literal.read? d.write = some (false, .finite d.expanded) ∧
      Literal.read? ('-' :: d.write) = some (true, .finite d.expanded) := by
  obtain ⟨c, rest, hwrite, hc⟩ := d.exists_write_eq_cons
  have hread := d.readDecimal?_write
  rw [hwrite] at hread ⊢
  rw [Literal.read?_of_isDigit_head hc, Literal.read?_minus hc, hread]
  exact ⟨rfl, rfl⟩

end Decimal

end ColorWords
