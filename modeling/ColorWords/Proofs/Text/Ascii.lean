import ColorWords.Proofs.Text.Words
import ColorWords.Text.Blank
import Mathlib

/-!
# Letters and digits

The codes of ASCII letters and digits lie in short ranges. So these characters are not white
space and take up one byte each, and the bytes of words are ordered as the words are.
-/

namespace ColorWords.Text

open Description

/-! ## Codes -/

/-- The code of a digit. -/
theorem toNat_of_isDigit {c : Char} (h : c.isDigit = true) : 48 ≤ c.toNat ∧ c.toNat ≤ 57 := by
  simp only [Char.isDigit, Bool.and_eq_true, decide_eq_true_eq, UInt32.le_iff_toNat_le] at h
  exact h

/-- Letters are told by their codes. -/
theorem isAlpha_iff_toNat (c : Char) :
    c.isAlpha = true ↔ 65 ≤ c.toNat ∧ c.toNat ≤ 90 ∨ 97 ≤ c.toNat ∧ c.toNat ≤ 122 := by
  simp only [Char.isAlpha, Char.isUpper, Char.isLower, Bool.or_eq_true, Bool.and_eq_true,
    decide_eq_true_eq, ge_iff_le, UInt32.le_iff_toNat_le]
  rfl

/-- The code of a letter. -/
theorem toNat_of_isAlpha {c : Char} (h : c.isAlpha = true) : 65 ≤ c.toNat ∧ c.toNat ≤ 122 := by
  have hcode := (isAlpha_iff_toNat c).mp h
  omega

/-- Printable ASCII characters are not white space. -/
theorem isBlank_of_toNat {c : Char} (hlow : 33 ≤ c.toNat) (hhigh : c.toNat ≤ 126) :
    isBlank c = false := by
  have houtside : ∀ range ∈ blankRanges, range.2 < 33 ∨ 126 < range.1 := by decide
  rw [isBlank, List.any_eq_false]
  intro range hrange
  have hends := houtside range hrange
  simp only [Bool.and_eq_true, decide_eq_true_eq]
  omega

/-- Digits are not white space. -/
theorem isBlank_of_isDigit {c : Char} (h : c.isDigit = true) : isBlank c = false :=
  isBlank_of_toNat (Nat.le_trans (by decide) (toNat_of_isDigit h).1)
    ((toNat_of_isDigit h).2.trans (by decide))

/-- Letters are not white space. -/
theorem isBlank_of_isAlpha {c : Char} (h : c.isAlpha = true) : isBlank c = false :=
  isBlank_of_toNat (Nat.le_trans (by decide) (toNat_of_isAlpha h).1)
    ((toNat_of_isAlpha h).2.trans (by decide))

/-- Digits have no case. -/
theorem toLower_of_isDigit {c : Char} (h : c.isDigit = true) : c.toLower = c := by
  refine dif_neg fun ⟨hcapital, _⟩ => ?_
  have hlow : 65 ≤ c.toNat := UInt32.le_iff_toNat_le.mp hcapital
  have hhigh := (toNat_of_isDigit h).2
  omega

/-! ## Bytes -/

/-- The UTF-8 encoding of a text. -/
def bytes (text : String) : List UInt8 := text.toUTF8.data.toList

/-- The encoding consists of those of the characters. -/
theorem bytes_eq_flatMap (text : String) :
    bytes text = text.toList.flatMap String.utf8EncodeChar := by
  rw [bytes, String.toUTF8, ← String.utf8Encode_toList, List.utf8Encode]
  simp

/-- An ASCII character takes up one byte, being its code. -/
theorem utf8EncodeChar_of_toNat_le {c : Char} (h : c.toNat ≤ 127) :
    String.utf8EncodeChar c = [UInt8.ofNat c.toNat] := by
  simp [String.utf8EncodeChar, h]

/-- An ASCII letter takes up one byte. -/
theorem utf8EncodeChar_of_isAlpha {c : Char} (h : c.isAlpha = true) :
    String.utf8EncodeChar c = [UInt8.ofNat c.toNat] :=
  utf8EncodeChar_of_toNat_le ((toNat_of_isAlpha h).2.trans (by decide))

/-- The byte is that of an ASCII letter. -/
def IsLetterByte (byte : UInt8) : Prop := 65 ≤ byte ∧ byte ≤ 90 ∨ 97 ≤ byte ∧ byte ≤ 122

/-- Bytes of letters are told by their numbers. -/
theorem isLetterByte_iff_toNat (byte : UInt8) :
    IsLetterByte byte ↔
      65 ≤ byte.toNat ∧ byte.toNat ≤ 90 ∨ 97 ≤ byte.toNat ∧ byte.toNat ≤ 122 := by
  simp only [IsLetterByte, UInt8.le_iff_toNat_le]
  rfl

/-- Letters are encoded as letters, and each other character has a byte that is no letter. -/
theorem isAlpha_iff_bytes (c : Char) :
    c.isAlpha = true ↔ ∀ byte ∈ String.utf8EncodeChar c, IsLetterByte byte := by
  rw [isAlpha_iff_toNat]
  rcases Nat.lt_or_ge 127 c.toNat with hlong | hshort
  · -- The last of several bytes is beyond ASCII.
    have hlast : UInt8.ofNat (c.val.toNat % 64 + 128) ∈ String.utf8EncodeChar c := by
      have hlong : ¬ c.val.toNat ≤ 127 := Nat.not_le.mpr hlong
      simp only [String.utf8EncodeChar, hlong, if_false]
      split
      · simp
      · split <;> simp
    have hbeyond : ¬ IsLetterByte (UInt8.ofNat (c.val.toNat % 64 + 128)) := by
      rw [isLetterByte_iff_toNat, UInt8.toNat_ofNat']
      omega
    exact iff_of_false (by omega) fun hall => hbeyond (hall _ hlast)
  · rw [utf8EncodeChar_of_toNat_le hshort, List.forall_mem_singleton, isLetterByte_iff_toNat,
      UInt8.toNat_ofNat', Nat.mod_eq_of_lt (by omega)]

/-- The bytes of letters are in the same order as the letters. -/
theorem flatMap_utf8EncodeChar_lt_iff {x y : List Char} (hx : ∀ c ∈ x, c.isAlpha = true)
    (hy : ∀ c ∈ y, c.isAlpha = true) :
    x.flatMap String.utf8EncodeChar < y.flatMap String.utf8EncodeChar ↔ x < y := by
  induction x generalizing y with
  | nil =>
    cases y with
    | nil => simp
    | cons d y => simp [utf8EncodeChar_of_isAlpha (hy d List.mem_cons_self)]
  | cons c x ih =>
    cases y with
    | nil => simp
    | cons d y =>
      have hc := hx c List.mem_cons_self
      have hd := hy d List.mem_cons_self
      have hcode := toNat_of_isAlpha hc
      have hdcode := toNat_of_isAlpha hd
      have hlt : UInt8.ofNat c.toNat < UInt8.ofNat d.toNat ↔ c < d := by
        rw [UInt8.lt_iff_toNat_lt, Char.lt_def, UInt32.lt_iff_toNat_lt, UInt8.toNat_ofNat',
          UInt8.toNat_ofNat', Nat.mod_eq_of_lt (by omega), Nat.mod_eq_of_lt (by omega)]
        rfl
      have heq : UInt8.ofNat c.toNat = UInt8.ofNat d.toNat ↔ c = d := by
        rw [← UInt8.toNat_inj, ← Char.toNat_inj, UInt8.toNat_ofNat', UInt8.toNat_ofNat',
          Nat.mod_eq_of_lt (by omega), Nat.mod_eq_of_lt (by omega)]
      rw [List.flatMap_cons, List.flatMap_cons, utf8EncodeChar_of_isAlpha hc,
        utf8EncodeChar_of_isAlpha hd, List.singleton_append, List.singleton_append,
        List.cons_lt_cons_iff, List.cons_lt_cons_iff, hlt, heq,
        ih (fun e he => hx e (List.mem_cons_of_mem _ he))
          fun e he => hy e (List.mem_cons_of_mem _ he)]

/-- A word is a nonempty text all bytes of which are letters. -/
theorem isWord_iff_bytes (text : String) :
    IsWord text ↔ text ≠ "" ∧ ∀ byte ∈ bytes text, IsLetterByte byte := by
  rw [bytes_eq_flatMap, IsWord, List.forall_mem_flatMap]
  simp only [isAlpha_iff_bytes]

/-- Words compare as their bytes. -/
theorem bytes_lt_bytes_iff {x y : String} (hx : IsWord x) (hy : IsWord y) :
    bytes x < bytes y ↔ x < y := by
  rw [bytes_eq_flatMap, bytes_eq_flatMap, flatMap_utf8EncodeChar_lt_iff hx.2 hy.2,
    String.lt_iff_toList_lt]

end ColorWords.Text
