import ColorWords.Proofs.Text.Separated
import ColorWords.Scalar.Binary64Text

/-!
# The spelling of literals

Color notations leave the numbers in them to a recognizer. What they need of it is that the case
of letters does not matter and that some characters are in no literal. The literals of floats are
spelled with letters, digits, signs and points only.
-/

namespace ColorWords

open Text

/-- The character is in no text that is recognized as a number. -/
def Numeral.Avoids (α : Type) [Numeral α] (c : Char) : Prop :=
  ∀ (text : List Char) (x : α), Numeral.read? text = some x → c ∉ text

/-- A recognizer for which the case of letters does not matter, and no number has white space or
a slash in it. -/
class PlainNumeral (α : Type) [Numeral α] : Prop where
  read?_lowered (text : List Char) : (Numeral.read? (lowered text) : Option α) = Numeral.read? text
  avoids_blank {c : Char} (hc : isBlank c = true) : Numeral.Avoids α c
  avoids_slash : Numeral.Avoids α '/'

namespace Literal

/-! ## Characters -/

/-- A letter, a digit, a sign or a point. -/
def IsPlain (c : Char) : Prop := c.isAlphanum = true ∨ c = '+' ∨ c = '-' ∨ c = '.'

/-- Digits are plain. -/
theorem isPlain_of_isDigit {c : Char} (h : c.isDigit = true) : IsPlain c := by
  simp [IsPlain, Char.isAlphanum, h]

/-- The letters of a lowered text of letters are letters. -/
theorem isPlain_of_lowered_eq {text word : List Char} (hword : word.all Char.isAlpha = true)
    (h : lowered text = word) : ∀ c ∈ text, IsPlain c := by
  intro c hc
  have hlower : c.toLower.isAlpha = true :=
    List.all_eq_true.mp hword _ (h ▸ List.mem_map_of_mem hc)
  rw [Char.isAlpha_toLower_eq_isAlpha] at hlower
  simp [IsPlain, Char.isAlphanum, hlower]

/-- Only a sign comes before what follows the sign. -/
theorem mem_readSign {text : List Char} {c : Char} (hc : c ∈ text) :
    c ∈ (readSign text).2 ∨ IsPlain c := by
  unfold readSign
  split
  · rcases List.mem_cons.mp hc with rfl | hc
    · exact Or.inr (Or.inr (Or.inr (Or.inl rfl)))
    · exact Or.inl hc
  · rcases List.mem_cons.mp hc with rfl | hc
    · exact Or.inr (Or.inr (Or.inl rfl))
    · exact Or.inl hc
  · exact Or.inl hc

/-- Exponents are plain. -/
theorem isPlain_of_readExponent? {text : List Char} {n : Int} (h : readExponent? text = some n) :
    ∀ c ∈ text, IsPlain c := by
  intro c hc
  cases text with
  | nil => simp at hc
  | cons first rest =>
    simp only [readExponent?] at h
    split at h
    · next hfirst =>
      obtain ⟨digits, hdigits, -⟩ := Option.map_eq_some_iff.mp h
      rcases List.mem_cons.mp hc with rfl | hc
      · rcases hfirst with rfl | rfl <;> exact Or.inl (by decide)
      · rcases mem_readSign hc with hmem | hplain
        · unfold readNatural? at hdigits
          split at hdigits
          · next hall =>
            rw [Bool.and_eq_true, List.all_eq_true] at hall
            exact isPlain_of_isDigit (hall.2 c hmem)
          · cases hdigits
        · exact hplain
    · cases h

/-- A text is its leading digits and the rest. -/
theorem mem_digits_or_rest {text : List Char} {c : Char} (hc : c ∈ text) :
    IsPlain c ∨ c ∈ text.dropWhile Char.isDigit := by
  rw [← List.takeWhile_append_dropWhile (p := Char.isDigit) (l := text)] at hc
  exact (List.mem_append.mp hc).imp_left fun h => isPlain_of_isDigit (List.mem_takeWhile_imp h)

/-- The digits after a point, if there is one, and what follows them. -/
def splitPlaces : List Char → List Char × List Char
  | '.' :: rest => (rest.takeWhile Char.isDigit, rest.dropWhile Char.isDigit)
  | rest => ([], rest)

/-- A decimal is read from its leading digits, its places and its exponent. -/
theorem readDecimal?_eq (text : List Char) :
    readDecimal? text =
      let whole := text.takeWhile Char.isDigit
      let parts := splitPlaces (text.dropWhile Char.isDigit)
      if whole.isEmpty && parts.1.isEmpty then none
      else
        (readExponent? parts.2).map fun exponent =>
          ⟨naturalOf (whole ++ parts.1), exponent - parts.1.length⟩ := rfl

/-- A point and its places are plain. -/
theorem mem_splitPlaces {text : List Char} {c : Char} (hc : c ∈ text) :
    IsPlain c ∨ c ∈ (splitPlaces text).2 := by
  unfold splitPlaces
  split
  · rcases List.mem_cons.mp hc with rfl | hc
    · exact Or.inl (Or.inr (Or.inr (Or.inr rfl)))
    · exact mem_digits_or_rest hc
  · exact Or.inr hc

/-- Unsigned decimals are plain. -/
theorem isPlain_of_readDecimal? {text : List Char} {d : Decimal} (h : readDecimal? text = some d) :
    ∀ c ∈ text, IsPlain c := by
  intro c hc
  rcases mem_digits_or_rest hc with hplain | hrest
  · exact hplain
  · rcases mem_splitPlaces hrest with hplain | hrest
    · exact hplain
    · simp only [readDecimal?_eq] at h
      split at h
      · cases h
      · obtain ⟨exponent, hexponent, -⟩ := Option.map_eq_some_iff.mp h
        exact isPlain_of_readExponent? hexponent c hrest

/-- An unsigned literal is one of three words or a decimal. -/
theorem readUnsigned?_eq (text : List Char) :
    readUnsigned? text =
      if lowered text = "inf".toList ∨ lowered text = "infinity".toList then some .infinite
      else if lowered text = "nan".toList then some .notANumber
      else (readDecimal? text).map .finite := rfl

/-- Unsigned literals are plain. -/
theorem isPlain_of_readUnsigned? {text : List Char} {literal : Literal}
    (h : readUnsigned? text = some literal) : ∀ c ∈ text, IsPlain c := by
  rw [readUnsigned?_eq] at h
  split at h
  · next hword =>
    rcases hword with hword | hword
    · exact isPlain_of_lowered_eq (by decide) hword
    · exact isPlain_of_lowered_eq (by decide) hword
  · split at h
    · next hword => exact isPlain_of_lowered_eq (by decide) hword
    · obtain ⟨d, hd, -⟩ := Option.map_eq_some_iff.mp h
      exact isPlain_of_readDecimal? hd

/-- Literals are plain. -/
theorem isPlain_of_read? {text : List Char} {literal : Bool × Literal}
    (h : read? text = some literal) : ∀ c ∈ text, IsPlain c := by
  intro c hc
  obtain ⟨unsigned, hunsigned, -⟩ := Option.map_eq_some_iff.mp h
  exact (mem_readSign hc).elim (isPlain_of_readUnsigned? hunsigned c) id

/-! ## The case of letters -/

/-- Lowering a text leaves its sign alone. -/
theorem readSign_lowered (text : List Char) :
    readSign (lowered text) = ((readSign text).1, lowered (readSign text).2) := by
  cases text with
  | nil => rfl
  | cons c rest =>
    have hminus : c.toLower = '-' ↔ c = '-' := toLower_eq_iff (by decide) c
    have hplus : c.toLower = '+' ↔ c = '+' := toLower_eq_iff (by decide) c
    by_cases hm : c = '-'
    · subst hm
      rfl
    · by_cases hp : c = '+'
      · subst hp
        rfl
      · simp [lowered, readSign, hminus, hplus, hm, hp]

/-- Lowering a character does not make it a digit. -/
theorem isDigit_toLower (c : Char) : c.toLower.isDigit = c.isDigit := by
  rcases toLower_cases c with h | ⟨hlow, hhigh, hlower⟩
  · rw [h]
  · rw [Bool.eq_iff_iff]
    constructor
    · intro h
      have := toNat_of_isDigit h
      omega
    · intro h
      have := toNat_of_isDigit h
      omega

/-- Leading digits are the same in a lowered text. -/
theorem takeWhile_isDigit_lowered (text : List Char) :
    (lowered text).takeWhile Char.isDigit = text.takeWhile Char.isDigit := by
  have hdigit : Char.isDigit ∘ Char.toLower = Char.isDigit := funext isDigit_toLower
  rw [lowered, List.takeWhile_map, hdigit]
  exact (List.map_congr_left fun c hc => toLower_of_isDigit (List.mem_takeWhile_imp hc)).trans
    (List.map_id _)

/-- What follows the leading digits is lowered. -/
theorem dropWhile_isDigit_lowered (text : List Char) :
    (lowered text).dropWhile Char.isDigit = lowered (text.dropWhile Char.isDigit) := by
  have hdigit : Char.isDigit ∘ Char.toLower = Char.isDigit := funext isDigit_toLower
  rw [lowered, List.dropWhile_map, hdigit, lowered]

/-- Digits alone are read alike. -/
theorem readNatural?_lowered (text : List Char) :
    readNatural? (lowered text) = readNatural? text := by
  have hall : (lowered text).all Char.isDigit = text.all Char.isDigit := by
    simp only [lowered, List.all_map]
    exact congrArg (text.all ·) (funext isDigit_toLower)
  have hempty : (lowered text).isEmpty = text.isEmpty := List.isEmpty_map
  unfold readNatural?
  rw [hall, hempty]
  split
  · next h =>
    rw [Bool.and_eq_true, List.all_eq_true] at h
    have hsame : lowered text = text :=
      (List.map_congr_left fun c hc => toLower_of_isDigit (h.2 c hc)).trans (List.map_id _)
    rw [hsame]
  · rfl

/-- A character is the mark of an exponent in either case. -/
theorem toLower_eq_mark_iff (c : Char) : c.toLower = 'e' ∨ c.toLower = 'E' ↔ c = 'e' ∨ c = 'E' := by
  have hsmall (d : Char) : d = 'e' ↔ d.toNat = 101 := Char.toNat_inj.symm
  have hcapital (d : Char) : d = 'E' ↔ d.toNat = 69 := Char.toNat_inj.symm
  rw [hsmall, hcapital, hsmall, hcapital]
  rcases toLower_cases c with h | ⟨hlow, hhigh, hlower⟩
  · rw [h]
  · omega

/-- The mark of an exponent may be a capital. -/
theorem readExponent?_lowered (text : List Char) :
    readExponent? (lowered text) = readExponent? text := by
  cases text with
  | nil => rfl
  | cons c rest =>
    have hlower : lowered (c :: rest) = c.toLower :: lowered rest := rfl
    simp only [hlower, readExponent?, toLower_eq_mark_iff, readSign_lowered, readNatural?_lowered]

/-- Places are the same in a lowered text. -/
theorem splitPlaces_lowered (text : List Char) :
    splitPlaces (lowered text) = ((splitPlaces text).1, lowered (splitPlaces text).2) := by
  cases text with
  | nil => rfl
  | cons c rest =>
    have hpoint : c.toLower = '.' ↔ c = '.' := toLower_eq_iff (by decide) c
    have hlower : lowered (c :: rest) = c.toLower :: lowered rest := rfl
    by_cases hc : c = '.'
    · subst hc
      exact Prod.ext (takeWhile_isDigit_lowered rest) (dropWhile_isDigit_lowered rest)
    · simp [hlower, splitPlaces, hpoint, hc]

/-- Decimals are read alike. -/
theorem readDecimal?_lowered (text : List Char) :
    readDecimal? (lowered text) = readDecimal? text := by
  simp only [readDecimal?_eq, takeWhile_isDigit_lowered, dropWhile_isDigit_lowered,
    splitPlaces_lowered, readExponent?_lowered]

/-- The case of letters does not matter in a literal. -/
theorem read?_lowered (text : List Char) : read? (lowered text) = read? text := by
  simp only [read?, readSign_lowered, readUnsigned?_eq, lowered_lowered, readDecimal?_lowered]

end Literal

/-- The literals of floats have no characters but plain ones. -/
theorem Binary64.avoids_of_not_isPlain {c : Char} (hc : ¬ Literal.IsPlain c) :
    Numeral.Avoids Float c := by
  intro text x hread hmem
  obtain ⟨literal, hliteral, -⟩ := Option.map_eq_some_iff.mp hread
  exact hc (Literal.isPlain_of_read? hliteral c hmem)

/-- Floats are recognized in any case, and without white space and slashes. -/
instance PlainNumeral.instFloat : PlainNumeral Float where
  read?_lowered text := congrArg (Option.map _) (Literal.read?_lowered text)
  avoids_blank {c} hc := by
    refine Binary64.avoids_of_not_isPlain fun hplain => ?_
    have hdark : isBlank c = false := by
      rcases hplain with halnum | rfl | rfl | rfl
      · rcases Bool.or_eq_true_iff.mp halnum with halpha | hdigit
        · exact isBlank_of_isAlpha halpha
        · exact isBlank_of_isDigit hdigit
      · decide
      · decide
      · decide
    exact Bool.false_ne_true (hdark.symm.trans hc)
  avoids_slash := Binary64.avoids_of_not_isPlain (by unfold Literal.IsPlain; decide)

end ColorWords
