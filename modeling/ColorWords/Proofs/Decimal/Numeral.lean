import ColorWords.Proofs.Decimal.Text

/-!
# Numerals

The positional text of a decimal is a numeral, with as many digits after its point as the decimal
has places. A minus makes it the numeral of a negative number, which is never a negative zero.
-/

namespace ColorWords

/-! ## Digits -/

/-- The digits of a number other than zero are not all zeros. -/
theorem Literal.exists_ne_zero_of_naturalOf {digits : List Char} (h : naturalOf digits ≠ 0) :
    ∃ c ∈ digits, c ≠ '0' := by
  by_contra hall
  push Not at hall
  have hzeros := naturalOf_replicate_append digits.length []
  rw [List.append_nil, ← List.eq_replicate_of_mem hall] at hzeros
  exact h hzeros

namespace Decimal

/-! ## Numerals -/

/-- What follows the digits of an integer: nothing, or a point with digits after it. -/
def fractionText (fraction : List Char) : List Char :=
  if fraction = [] then [] else '.' :: fraction

/-- The text consists of digits after an optional minus and of at most as many digits as given
after an optional point. With a minus it has a digit other than zero. -/
def IsNumeral (places : ℕ) (text : List Char) : Prop :=
  ∃ sign whole fraction : List Char, text = sign ++ whole ++ fractionText fraction ∧
    (∀ c ∈ whole ++ fraction, c.isDigit = true) ∧ whole ≠ [] ∧ fraction.length ≤ places ∧
    (sign = [] ∨ sign = ['-'] ∧ ∃ c ∈ whole ++ fraction, c ≠ '0')

/-- The text of a decimal is a numeral, and with a minus it is one unless the decimal is zero. -/
theorem isNumeral_write {d : Decimal} {places : ℕ} (h : -d.exponent ≤ places) :
    IsNumeral places d.write ∧ (d.coefficient ≠ 0 → IsNumeral places ('-' :: d.write)) := by
  obtain ⟨whole, fraction, hdigits, hne, hexpanded, hwrite⟩ := d.exists_write_eq
  have htext : d.write = whole ++ fractionText fraction := by
    rcases hwrite with ⟨rfl, hwrite⟩ | ⟨hfraction, hwrite⟩
    · rw [hwrite, fractionText, if_pos rfl, List.append_nil]
    · rw [hwrite, fractionText, if_neg hfraction]
  have hlength : fraction.length ≤ places := by
    have hexponent := congrArg Decimal.exponent hexpanded
    dsimp only at hexponent
    unfold expanded at hexponent
    split at hexponent
    · dsimp only at hexponent
      omega
    · omega
  refine ⟨⟨[], whole, fraction, htext, hdigits, hne, hlength, Or.inl rfl⟩, fun hcoefficient => ?_⟩
  refine ⟨['-'], whole, fraction, congrArg _ htext, hdigits, hne, hlength, Or.inr ⟨rfl, ?_⟩⟩
  refine Literal.exists_ne_zero_of_naturalOf fun hzero => hcoefficient ?_
  have hvalue := congrArg Decimal.coefficient hexpanded
  dsimp only at hvalue
  rw [hzero] at hvalue
  unfold expanded at hvalue
  split at hvalue
  · exact (Nat.mul_eq_zero.mp hvalue).resolve_right (by positivity)
  · exact hvalue

/-- A numeral has no other characters than digits, a point and a minus. -/
theorem IsNumeral.mem {places : ℕ} {text : List Char} (h : IsNumeral places text) {c : Char}
    (hc : c ∈ text) : c.isDigit = true ∨ c = '.' ∨ c = '-' := by
  obtain ⟨sign, whole, fraction, rfl, hdigits, -, -, hsign⟩ := h
  have hpoint : c ∈ fractionText fraction → c.isDigit = true ∨ c = '.' := by
    intro hc
    unfold fractionText at hc
    split at hc
    · exact absurd hc List.not_mem_nil
    · exact (List.mem_cons.mp hc).elim Or.inr fun hc =>
        Or.inl (hdigits c (List.mem_append_right _ hc))
  rw [List.mem_append, List.mem_append] at hc
  rcases hc with (hc | hc) | hc
  · rcases hsign with rfl | ⟨rfl, -⟩
    · exact absurd hc List.not_mem_nil
    · exact Or.inr (Or.inr (List.mem_singleton.mp hc))
  · exact Or.inl (hdigits c (List.mem_append_left _ hc))
  · exact (hpoint hc).imp_right Or.inl

/-- No other character is in a numeral. -/
theorem IsNumeral.not_mem {places : ℕ} {text : List Char} (h : IsNumeral places text) {c : Char}
    (hdigit : c.isDigit = false) (hpoint : c ≠ '.') (hminus : c ≠ '-') : c ∉ text := fun hc => by
  rcases h.mem hc with hc | hc | hc
  · exact Bool.false_ne_true (hdigit.symm.trans hc)
  · exact hpoint hc
  · exact hminus hc

end Decimal

end ColorWords
