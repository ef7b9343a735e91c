import ColorWords.Proofs.Color.Hashed
import ColorWords.Proofs.Color.Notation

/-!
# The characters of a color

A text that is read as a color consists of letters, of the signs of its notation, of white space
and of the texts of its numbers. So a character that is none of these, and that no number has, is
not in the text of any color.
-/

namespace ColorWords

open Text

namespace Color

/-- The parentheses and what stands between them. -/
theorem exists_eq_of_readBody {text body : List Char}
    (h : readBody text = .ok body) :
    ∃ gap, AllBlank gap ∧ text = gap ++ '(' :: (body ++ [')']) := by
  unfold readBody at h
  split at h
  · next rest hstart =>
    split at h
    · next hlast =>
      obtain ⟨gap, hgap, htext⟩ := exists_eq_append_trimStart text
      obtain ⟨inner, rfl⟩ := List.getLast?_eq_some_iff.mp hlast
      rw [List.dropLast_concat, Except.ok.injEq] at h
      exact ⟨gap, hgap, by rw [htext, hstart, h]⟩
    · cases h
  · cases h

/-- The character is none of those that belong to a notation or that separate its parts, and no
number has it. -/
structure IsForeign (α : Type) [Numeral α] (d : Char) : Prop where
  lt : d.toNat < 65
  not_blank : isBlank d = false
  not_isHexDigit : ¬ IsHexDigit d
  not_mem : d ∉ "#+(/)".toList
  avoids : Numeral.Avoids α d

variable {α : Type} [Numeral α] {d : Char}

namespace IsForeign

/-- A foreign character is no sign of a notation. -/
theorem ne (h : IsForeign α d) {c : Char} (hc : c ∈ "#+(/)".toList) : d ≠ c :=
  fun heq => h.not_mem (heq ▸ hc)

/-- A foreign character is not in the name of a function. -/
theorem not_mem_functionName (h : IsForeign α d) (isPolar : Bool) : d ∉ functionName isPolar := by
  have hsmall : ∀ isPolar, (functionName isPolar).Forall fun c => 65 ≤ c.toNat := by decide
  intro hmem
  have hle := List.forall_iff_forall_mem.mp (hsmall isPolar) d hmem
  have hlt := h.lt
  omega

/-- Hexadecimal notation has no foreign characters. -/
theorem not_mem_of_hashedBytes (h : IsForeign α d) {digits : List Char} {bytes : RGB UInt8}
    (hbytes : HashedBytes digits bytes) : d ∉ digits := by
  have hsome {c : Char} {n : ℕ} (hvalue : hexValue? c = some n) : d ≠ c := fun heq =>
    h.not_isHexDigit (heq ▸ (exists_hexValue?_iff c).mp ⟨n, hvalue⟩)
  have hdoubled {c : Char} {byte : UInt8} (hc : IsDoubled c byte) : d ≠ c := by
    obtain ⟨n, hn, -⟩ := hc
    exact hsome hn
  have hpair {x y : Char} {byte : UInt8} (hxy : IsPair x y byte) : d ≠ x ∧ d ≠ y := by
    obtain ⟨n, hn, ⟨m, hm, -⟩ | ⟨rfl, -⟩⟩ := hxy
    · exact ⟨hsome hm, hsome hn⟩
    · exact ⟨h.ne (by decide), hsome hn⟩
  cases hbytes with
  | digits hx hy hz => simp [hdoubled hx, hdoubled hy, hdoubled hz]
  | pairs hx hy hz => simp [hpair hx, hpair hy, hpair hz]

/-- A text that is read as a number has no foreign characters. -/
theorem not_mem_of_readNumber (h : IsForeign α d) {text : List Char} {x : α}
    (hread : readNumber text = .ok x) : d ∉ text := by
  unfold readNumber at hread
  split at hread
  · next hnumber => exact h.avoids _ _ hnumber
  · cases hread

/-- Coordinates have no foreign characters. -/
theorem not_mem_of_readCoordinates (h : IsForeign α d) {text : List Char} {c : Triple α}
    (hread : readCoordinates text = .ok c) : d ∉ text := by
  rw [(separated_fields text).mem_iff h.not_blank]
  rintro ⟨field, hfield, hmem⟩
  obtain ⟨i, hi, rfl⟩ := List.getElem_of_mem hfield
  simp only [readCoordinates, bind_eq_ok_iff] at hread
  obtain ⟨x, hx, y, hy, z, hz, hcount⟩ := hread
  have hlength : (fields text).length ≤ 3 := by
    by_contra hmore
    rw [if_pos (by omega)] at hcount
    cases hcount
  have hfield : ∃ x : α, readCoordinate (fields text)[i]? = .ok x := by
    have hcases : i = 0 ∨ i = 1 ∨ i = 2 := by omega
    rcases hcases with rfl | rfl | rfl
    · exact ⟨x, hx⟩
    · exact ⟨y, hy⟩
    · exact ⟨z, hz⟩
  obtain ⟨x, hx⟩ := hfield
  rw [List.getElem?_eq_getElem hi] at hx
  exact h.not_mem_of_readNumber hx hmem

/-- What follows the slash has no foreign characters. -/
theorem not_mem_of_readAlpha [Scalar α] (h : IsForeign α d) {text : List Char} {u : α}
    (hread : readAlpha (some text) = .ok u) : d ∉ text := by
  rw [← mem_trim_iff h.not_blank]
  simp only [readAlpha] at hread
  split at hread
  · cases hread
  · exact h.not_mem_of_readNumber hread

variable [Scalar α] [ColorModel α]

/-- Functional notation has no foreign characters. -/
theorem not_mem_of_readFunctional (h : IsForeign α d) {text : List Char} {c : Color α}
    (hread : readFunctional text = .ok c) : d ∉ text := by
  unfold readFunctional at hread
  split at hread
  · next isPolar rest hfunction =>
    simp only [bind_eq_ok_iff] at hread
    obtain ⟨body, hbody, coordinates, hcoordinates, u, hu, -⟩ := hread
    rw [readFunction?_eq_some_iff] at hfunction
    obtain ⟨gap, hgap, hrest⟩ := exists_eq_of_readBody hbody
    have hinside : d ∉ body := by
      cases hsplit : splitOnce? (· == '/') body with
      | none =>
        rw [hsplit] at hcoordinates
        exact h.not_mem_of_readCoordinates hcoordinates
      | some parts =>
        rw [hsplit] at hcoordinates hu
        obtain ⟨slash, hslash, -, rfl⟩ := exists_eq_of_splitOnce? hsplit
        obtain rfl : slash = '/' := eq_of_beq hslash
        rw [List.mem_append, List.mem_cons, not_or, not_or]
        exact ⟨h.not_mem_of_readCoordinates hcoordinates, h.ne (by decide),
          h.not_mem_of_readAlpha hu⟩
    rw [hfunction, hrest]
    simp [h.not_mem_functionName isPolar, hgap.not_mem h.not_blank, hinside,
      h.ne (c := '(') (by decide), h.ne (c := ')') (by decide)]
  · cases hread

/-- The text of a color has no foreign characters. -/
theorem not_mem_of_read (h : IsForeign α d) {text : List Char} {c : Color α}
    (hread : read text = .ok c) : d ∉ text := by
  rw [← mem_trim_iff h.not_blank, ← mem_lowered_iff h.lt]
  unfold read at hread
  split at hread
  · next digits htrim =>
    cases hdigits : readHashed digits with
    | error cause => simp [hdigits, Except.map] at hread
    | ok bytes =>
      rw [lowered, htrim, List.mem_cons, not_or]
      exact ⟨h.ne (by decide), h.not_mem_of_hashedBytes ((readHashed_eq_ok_iff _ _).mp hdigits)⟩
  · exact h.not_mem_of_readFunctional hread

end IsForeign

/-- White space alone is no color. -/
theorem not_allBlank_of_read [Scalar α] [ColorModel α] {text : List Char} {c : Color α}
    (h : read text = .ok c) : ¬ AllBlank text := by
  intro hblank
  rw [read, (trim_eq_nil_iff text).mpr hblank] at h
  cases h

end Color

end ColorWords
