import ColorWords.Adjective
import ColorWords.Proofs.Text.Separated

/-!
# The case of adjectives

Words are recognized by the lowercase forms of their bytes. A capital letter is one byte, which has
the same lowercase form as that of the small letter, and all other characters stay as they are. So
the case of letters makes no difference to which adjective a word is.
-/

namespace ColorWords

open Text

namespace Rule

/-- Lowering a character does not change the lowercase forms of its bytes. -/
theorem map_lowerByte_utf8EncodeChar_toLower (c : Char) :
    (String.utf8EncodeChar c.toLower).map lowerByte = (String.utf8EncodeChar c).map lowerByte := by
  rcases toLower_cases c with h | ⟨hlow, hhigh, hlower⟩
  · rw [h]
  · have hletters : ∀ n < 26,
        lowerByte (UInt8.ofNat (n + 65 + 32)) = lowerByte (UInt8.ofNat (n + 65)) := by decide
    have hletter := hletters (c.toNat - 65) (by omega)
    rw [Nat.sub_add_cancel hlow] at hletter
    rw [utf8EncodeChar_of_toNat_le (by omega), utf8EncodeChar_of_toNat_le (by omega), hlower,
      List.map_singleton, List.map_singleton, hletter]

/-- The lowercase forms of the bytes of a text are those of the lowered text. -/
theorem map_lowerByte_bytes_lowered (text : List Char) :
    ((lowered text).flatMap String.utf8EncodeChar).map lowerByte =
      (text.flatMap String.utf8EncodeChar).map lowerByte := by
  simp only [lowered, List.map_flatMap, List.flatMap_map, map_lowerByte_utf8EncodeChar_toLower]

/-- Bytes with the same lowercase forms have the shape of the same tier. -/
theorem tier?_eq_of_map_lowerByte_eq (rule : Rule) {x y : List UInt8}
    (h : x.map lowerByte = y.map lowerByte) : rule.tier? x = rule.tier? y := by
  have hletter (offset : ℕ) (letter : Char) :
      letterAt x offset letter = letterAt y offset letter := by
    rw [letterAt, letterAt, ← List.getElem?_map, ← List.getElem?_map, h]
  have hlength : x.length = y.length := by simpa using congrArg List.length h
  rw [tier?, tier?, hletter, hletter, hlength]

end Rule

/-- The case of letters makes no difference to which adjective a word is. -/
theorem Adjective.ofWord?_eq_of_lowered_eq {x y : String}
    (h : lowered x.toList = lowered y.toList) : ofWord? x = ofWord? y := by
  have hbytes : (x.toList.flatMap String.utf8EncodeChar).map Rule.lowerByte =
      (y.toList.flatMap String.utf8EncodeChar).map Rule.lowerByte := by
    rw [← Rule.map_lowerByte_bytes_lowered, h, Rule.map_lowerByte_bytes_lowered]
  unfold ofWord? ofBytes? ofBytesIn?
  simp only [Rule.tier?_eq_of_map_lowerByte_eq _ hbytes]

end ColorWords
