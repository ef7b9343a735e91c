import ColorWords.Proofs.Color.Functional
import ColorWords.Proofs.Color.Normal
import ColorWords.Proofs.Scalar.Rational

/-!
# Writing a color and reading it back

The text of a color holds its channels as numerals, so reading it leads to the color made from the
numbers that these numerals are read as. Over the rational numbers these are the rounded channels.
Rounding may leave the range of a channel, and then the channel is limited again.
-/

namespace ColorWords.Color

open Rational Scalar Text

/-! ## Colors -/

/-- The text is in functional notation, and the condition holds of the texts of its coordinates and
of the text of alpha, if there is one. -/
def HasFields (condition : List Char → Prop) (text : List Char) : Prop :=
  ∃ x y z, (condition x ∧ condition y ∧ condition z) ∧
    (text = functionalText x y z [] ∨ ∃ w, condition w ∧ text = functionalText x y z (alphaText w))

/-- A text has no other characters than those of its fields and of the notation. -/
theorem HasFields.not_mem {condition : List Char → Prop} {text : List Char}
    (h : HasFields condition text) {d : Char} (hfield : ∀ {x}, condition x → d ∉ x)
    (hd : d ∉ "oklab( /)".toList) : d ∉ text := by
  obtain ⟨x, y, z, ⟨hx, hy, hz⟩, rfl | ⟨w, hw, rfl⟩⟩ := h
  · exact not_mem_functionalText hd (hfield hx) (hfield hy) (hfield hz) List.not_mem_nil
  · exact not_mem_functionalText hd (hfield hx) (hfield hy) (hfield hz)
      (not_mem_alphaText hd (hfield hw))

/-- A numeral can be a field. -/
theorem isField_of_isNumeral {places : ℕ} {text : List Char} (h : Decimal.IsNumeral places text) :
    IsField text where
  ne_nil := by
    obtain ⟨sign, whole, fraction, rfl, -, hne, -⟩ := h
    exact List.append_ne_nil_of_left_ne_nil (List.append_ne_nil_of_right_ne_nil _ hne) _
  hasNoBlank c hc := by
    rcases h.mem hc with hdigit | rfl | rfl
    · exact isBlank_of_isDigit hdigit
    · decide
    · decide
  no_slash hc := by
    rcases h.mem hc with hdigit | hpoint | hminus
    · exact absurd hdigit (by decide)
    · exact absurd hpoint (by decide)
    · exact absurd hminus (by decide)
  toLower_eq c hc := by
    rcases h.mem hc with hdigit | rfl | rfl
    · exact toLower_of_isDigit hdigit
    · decide
    · decide

section Written

variable {α : Type} [Scalar α] [Numeral α]

/-- With the given number of decimals the first scalar is written as a numeral, and this is read as
the second one. -/
structure ReadsBack (places : ℕ) (x y : α) : Prop where
  isNumeral : ∃ digits, Decimal.IsNumeral digits (writeChannel (powNat 10.0 places) x)
  read?_eq : Numeral.read? (writeChannel (powNat 10.0 places) x) = some y

/-- What is written can be a field. -/
theorem ReadsBack.isField {places : ℕ} {x y : α} (h : ReadsBack places x y) :
    IsField (writeChannel (powNat 10.0 places) x) :=
  let ⟨_, hnumeral⟩ := h.isNumeral
  isField_of_isNumeral hnumeral

/-- The text of a color is in functional notation. -/
theorem write_eq_functionalText (places : ℕ) (c : Color α) :
    let channel := writeChannel (powNat 10.0 places)
    c.write places = functionalText (channel c.lab.lightness) (channel c.lab.a) (channel c.lab.b)
      (if same c.alpha 1.0 then [] else alphaText (channel c.alpha)) := by
  intro channel
  have halpha : (" / ".toList ++ ·) = alphaText := rfl
  unfold write functionalText coordinateText
  rw [← halpha]
  simp only [List.append_assoc, List.cons_append, channel]

/-- The text of a color ends in a parenthesis. -/
theorem exists_write_eq_append (places : ℕ) (c : Color α) :
    ∃ inner, c.write places = inner ++ [')'] := ⟨_, rfl⟩

/-- The fields of the text of a color are what its channels are written as. -/
theorem hasFields_write {condition : List Char → Prop} {places : ℕ} {c : Color α}
    (h : ∀ x ∈ [c.lab.lightness, c.lab.a, c.lab.b, c.alpha],
      condition (writeChannel (powNat 10.0 places) x)) :
    HasFields condition (c.write places) := by
  simp only [List.forall_mem_cons] at h
  obtain ⟨hlightness, ha, hb, halpha, -⟩ := h
  refine ⟨_, _, _, ⟨hlightness, ha, hb⟩, ?_⟩
  rw [write_eq_functionalText]
  split
  · exact Or.inl rfl
  · exact Or.inr ⟨_, halpha, rfl⟩

/-- The text of a color is read as the color made from what its channels are read back as. Alpha is
one if it is left out. -/
theorem read_write_of_readsBack [ColorModel α] {places : ℕ} {c d : Color α}
    (h : Channelwise (ReadsBack places) c d) :
    read (c.write places) = .ok (make d.lab (if same c.alpha 1.0 then 1.0 else d.alpha)) := by
  rw [write_eq_functionalText]
  split
  · exact read_functionalText h.lightness.isField h.a.isField h.b.isField h.lightness.read?_eq
      h.a.read?_eq h.b.read?_eq
  · exact read_functionalText_alpha h.lightness.isField h.a.isField h.b.isField h.alpha.isField
      h.lightness.read?_eq h.a.read?_eq h.b.read?_eq h.alpha.read?_eq

end Written

/-! ## Rational channels -/

/-- A channel is written rounded to the given number of decimals. -/
theorem roundTo_eq (places : ℕ) (x : ℚ) :
    roundTo (powNat 10.0 places) x = Rational.toDecimals places x := by
  have hten : (powNat 10.0 places : ℚ) = 10 ^ places := by
    rw [powNat_eq_pow]
    norm_num
  have hzero : (0.0 : ℚ) = 0 := by norm_num
  have hrounded : Numeral.round (numberOrZero x * (10 : ℚ) ^ places) / 10 ^ places =
      Rational.toDecimals places x := by
    rw [numberOrZero, if_pos (le_refl x)]
    rfl
  rw [roundTo, hten, hrounded]
  -- Over the rational numbers zero has no sign that could be lost.
  split
  · next hsame =>
    simp only [same, Bool.and_eq_true, decide_eq_true_eq] at hsame
    exact (le_antisymm hsame.1 hsame.2).symm
  · rfl

/-- The text of a channel is a numeral with no more than the given number of decimals. -/
theorem isNumeral_writeChannel (places : ℕ) (x : ℚ) :
    Decimal.IsNumeral places (writeChannel (powNat 10.0 places) x) := by
  rw [writeChannel, roundTo_eq]
  exact isNumeral_write _ places

/-- The text of a channel is read as the rounded channel. -/
theorem readsBack_toDecimals (places : ℕ) (x : ℚ) :
    ReadsBack places x (Rational.toDecimals places x) where
  isNumeral := ⟨places, isNumeral_writeChannel places x⟩
  read?_eq := by
    rw [writeChannel, roundTo_eq]
    exact ofLiteral?_read?_write (isDecimal_toDecimals places x)

/-- The color made from rounded channels. -/
def toDecimals (places : ℕ) (c : Color ℚ) : Color ℚ :=
  make ⟨Rational.toDecimals places c.lab.lightness, Rational.toDecimals places c.lab.a,
    Rational.toDecimals places c.lab.b⟩ (Rational.toDecimals places c.alpha)

/-- The text of a color is read as the color made from its rounded channels. -/
theorem read_write [ColorModel ℚ] (places : ℕ) (c : Color ℚ) :
    read (c.write places) = .ok (c.toDecimals places) := by
  let rounded : Color ℚ :=
    ⟨⟨Rational.toDecimals places c.lab.lightness, Rational.toDecimals places c.lab.a,
      Rational.toDecimals places c.lab.b⟩, Rational.toDecimals places c.alpha⟩
  have hrounded : Channelwise (ReadsBack places) c rounded :=
    ⟨readsBack_toDecimals _ _, readsBack_toDecimals _ _, readsBack_toDecimals _ _,
      readsBack_toDecimals _ _⟩
  rw [read_write_of_readsBack hrounded]
  split
  · next hsame =>
    -- One stays one when rounded.
    simp only [same, Bool.and_eq_true, decide_eq_true_eq] at hsame
    have halpha : c.alpha = 1.0 := le_antisymm hsame.1 hsame.2
    have hone : Rational.toDecimals places (1.0 : ℚ) = 1.0 := by
      have hcast := toDecimals_intCast places 1
      norm_num at hcast ⊢
      exact hcast
    rw [toDecimals, halpha, hone]
  · rfl

end ColorWords.Color
