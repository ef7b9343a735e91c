import ColorWords.Color.Printer
import ColorWords.Proofs.Color.HexChannel
import ColorWords.Proofs.Text.Cuts
import ColorWords.Scalar.Binary64Text

/-!
# The hashed notation

What follows the hash sign is cut into three channels of the same number of bytes, so it is read
exactly if it consists of three hexadecimal digits or of three pairs of them. The first character
of a pair may also be a plus sign, which is the only way for a text to be read without consisting
of digits.
-/

namespace ColorWords

/-- Two readers in a row succeed exactly if both do. -/
theorem bind_eq_ok_iff {ε β γ : Type} (first : Except ε β) (next : β → Except ε γ) (result : γ) :
    first >>= next = .ok result ↔ ∃ value, first = .ok value ∧ next value = .ok result := by
  cases first <;> simp [bind, Except.bind]

/-- Two readers in a row fail exactly if one of them does. -/
theorem bind_eq_error_iff {ε β γ : Type} (first : Except ε β) (next : β → Except ε γ) (cause : ε) :
    first >>= next = .error cause ↔
      first = .error cause ∨ ∃ value, first = .ok value ∧ next value = .error cause := by
  cases first <;> simp [bind, Except.bind]

namespace Color

/-! ## Three channels -/

/-- The digits stand for three bytes, with one digit or a pair for each. -/
inductive HashedBytes : List Char → RGB UInt8 → Prop where
  | digits {x y z : Char} {red green blue : UInt8} (hx : IsDoubled x red) (hy : IsDoubled y green)
      (hz : IsDoubled z blue) : HashedBytes [x, y, z] ⟨red, green, blue⟩
  | pairs {x x' y y' z z' : Char} {red green blue : UInt8} (hx : IsPair x x' red)
      (hy : IsPair y y' green) (hz : IsPair z z' blue) :
      HashedBytes [x, x', y, y', z, z'] ⟨red, green, blue⟩

/-- Three or six hexadecimal digits. -/
def IsHexNotation (digits : List Char) : Prop :=
  (digits.length = 3 ∨ digits.length = 6) ∧ ∀ c ∈ digits, IsHexDigit c

/-- Read three channels of the given number of bytes each. -/
def readChannels (width : ℕ) (text : List Char) : Except ColorError (RGB UInt8) := do
  let (red, text) ← readChannel width text
  let (green, text) ← readChannel width text
  let (blue, _) ← readChannel width text
  return ⟨red, green, blue⟩

/-- The number of bytes decides the width of the channels. -/
theorem readHashed_eq (digits : List Char) :
    readHashed digits =
      match byteLength digits with
      | 3 => readChannels 1 digits
      | 6 => readChannels 2 digits
      | _ => .error .unexpectedCharacters := rfl

/-- Three bytes and six bytes are read as three channels, and nothing else is. -/
theorem readHashed_eq_ok_iff (digits : List Char) (bytes : RGB UInt8) :
    readHashed digits = .ok bytes ↔ HashedBytes digits bytes := by
  rw [readHashed_eq]
  constructor
  · intro h
    split at h
    · next hlength =>
      simp only [readChannels, bind_eq_ok_iff, Prod.exists, readChannel_one_eq_ok_iff] at h
      obtain ⟨red, _, ⟨x, rfl, hx⟩, green, _, ⟨y, rfl, hy⟩, blue, rest, ⟨z, rfl, hz⟩, hbytes⟩ := h
      simp only [byteLength_cons, hx.utf8Size, hy.utf8Size, hz.utf8Size] at hlength
      obtain rfl : rest = [] := (byteLength_eq_zero_iff rest).mp (by omega)
      obtain rfl := Except.ok.inj hbytes
      exact .digits hx hy hz
    · next hlength =>
      simp only [readChannels, bind_eq_ok_iff, Prod.exists, readChannel_two_eq_ok_iff] at h
      obtain ⟨red, _, ⟨x, x', rfl, hx⟩, green, _, ⟨y, y', rfl, hy⟩, blue, rest, ⟨z, z', rfl, hz⟩,
        hbytes⟩ := h
      simp only [byteLength_cons, hx.utf8Size, hy.utf8Size, hz.utf8Size] at hlength
      obtain rfl : rest = [] := (byteLength_eq_zero_iff rest).mp (by omega)
      obtain rfl := Except.ok.inj hbytes
      exact .pairs hx hy hz
    · simp at h
  · intro h
    cases h with
    | @digits x y z red green blue hx hy hz =>
      have hlength : byteLength [x, y, z] = 3 := by simp [hx.utf8Size, hy.utf8Size, hz.utf8Size]
      simp only [hlength, readChannels, bind_eq_ok_iff, Prod.exists, readChannel_one_eq_ok_iff]
      exact ⟨red, _, ⟨x, rfl, hx⟩, green, _, ⟨y, rfl, hy⟩, blue, _, ⟨z, rfl, hz⟩, rfl⟩
    | @pairs x x' y y' z z' red green blue hx hy hz =>
      have hlength : byteLength [x, x', y, y', z, z'] = 6 := by
        simp [hx.utf8Size, hy.utf8Size, hz.utf8Size]
      simp only [hlength, readChannels, bind_eq_ok_iff, Prod.exists, readChannel_two_eq_ok_iff]
      exact ⟨red, _, ⟨x, x', rfl, hx⟩, green, _, ⟨y, y', rfl, hy⟩, blue, _, ⟨z, z', rfl, hz⟩, rfl⟩

/-- What cannot be read as three channels has unexpected or malformed characters. -/
theorem readHashed_eq_error {digits : List Char} {cause : ColorError}
    (h : readHashed digits = .error cause) :
    cause = .unexpectedCharacters ∨ cause = .malformedHex := by
  have hchannels (width : ℕ) (h : readChannels width digits = .error cause) :
      cause = .unexpectedCharacters ∨ cause = .malformedHex := by
    simp only [readChannels, bind_eq_error_iff, Prod.exists] at h
    obtain h | ⟨_, _, _, h | ⟨_, _, _, h | ⟨_, _, _, h⟩⟩⟩ := h
    · exact readChannel_eq_error h
    · exact readChannel_eq_error h
    · exact readChannel_eq_error h
    · cases h
  rw [readHashed_eq] at h
  split at h
  · exact hchannels 1 h
  · exact hchannels 2 h
  · exact .inl (Except.error.inj h).symm

/-! ## Digits only -/

/-- Every digit stands for a byte on its own. -/
theorem exists_isDoubled_iff (c : Char) : (∃ byte, IsDoubled c byte) ↔ IsHexDigit c := by
  rw [← exists_hexValue?_iff]
  constructor
  · rintro ⟨byte, n, hn, -⟩
    exact ⟨n, hn⟩
  · rintro ⟨n, hn⟩
    have hlt := (of_hexValue?_eq_some hn).2
    exact ⟨UInt8.ofNat (16 * n + n), n, hn, by rw [UInt8.toNat_ofNat', Nat.mod_eq_of_lt (by omega)]⟩

/-- Without a plus sign exactly two digits stand for a byte. -/
theorem exists_isPair_iff {c : Char} (hc : c ≠ '+') (d : Char) :
    (∃ byte, IsPair c d byte) ↔ IsHexDigit c ∧ IsHexDigit d := by
  rw [← exists_hexValue?_iff, ← exists_hexValue?_iff]
  constructor
  · rintro ⟨byte, n, hn, ⟨m, hm, -⟩ | ⟨hplus, -⟩⟩
    · exact ⟨⟨m, hm⟩, n, hn⟩
    · exact absurd hplus hc
  · rintro ⟨⟨m, hm⟩, n, hn⟩
    have hmlt := (of_hexValue?_eq_some hm).2
    have hnlt := (of_hexValue?_eq_some hn).2
    refine ⟨UInt8.ofNat (16 * m + n), n, hn, .inl ⟨m, hm, ?_⟩⟩
    rw [UInt8.toNat_ofNat', Nat.mod_eq_of_lt (by omega)]

/-- Without a plus sign exactly three or six hexadecimal digits stand for bytes. -/
theorem exists_hashedBytes_iff {digits : List Char} (hplus : '+' ∉ digits) :
    (∃ bytes, HashedBytes digits bytes) ↔ IsHexNotation digits := by
  constructor
  · rintro ⟨bytes, h⟩
    cases h with
    | digits hx hy hz =>
      have hx := (exists_isDoubled_iff _).mp ⟨_, hx⟩
      have hy := (exists_isDoubled_iff _).mp ⟨_, hy⟩
      have hz := (exists_isDoubled_iff _).mp ⟨_, hz⟩
      exact ⟨.inl rfl, by simp [hx, hy, hz]⟩
    | pairs hx hy hz =>
      simp only [List.mem_cons, not_or] at hplus
      have hx := (exists_isPair_iff (Ne.symm hplus.1) _).mp ⟨_, hx⟩
      have hy := (exists_isPair_iff (Ne.symm hplus.2.2.1) _).mp ⟨_, hy⟩
      have hz := (exists_isPair_iff (Ne.symm hplus.2.2.2.2.1) _).mp ⟨_, hz⟩
      exact ⟨.inr rfl, by simp [hx, hy, hz]⟩
  · rintro ⟨hlength, hdigits⟩
    match digits, hlength with
    | [x, y, z], _ =>
      simp only [List.forall_mem_cons] at hdigits
      obtain ⟨red, hx⟩ := (exists_isDoubled_iff x).mpr hdigits.1
      obtain ⟨green, hy⟩ := (exists_isDoubled_iff y).mpr hdigits.2.1
      obtain ⟨blue, hz⟩ := (exists_isDoubled_iff z).mpr hdigits.2.2.1
      exact ⟨_, .digits hx hy hz⟩
    | [x, x', y, y', z, z'], _ =>
      simp only [List.mem_cons, not_or] at hplus
      simp only [List.forall_mem_cons] at hdigits
      obtain ⟨hx, hx', hy, hy', hz, hz', -⟩ := hdigits
      obtain ⟨red, hx⟩ := (exists_isPair_iff (Ne.symm hplus.1) x').mpr ⟨hx, hx'⟩
      obtain ⟨green, hy⟩ := (exists_isPair_iff (Ne.symm hplus.2.2.1) y').mpr ⟨hy, hy'⟩
      obtain ⟨blue, hz⟩ := (exists_isPair_iff (Ne.symm hplus.2.2.2.2.1) z').mpr ⟨hz, hz'⟩
      exact ⟨_, .pairs hx hy hz⟩

/-- A plus sign is no hexadecimal digit. -/
theorem not_isHexNotation_of_mem {digits : List Char} (hplus : '+' ∈ digits) :
    ¬ IsHexNotation digits := fun h => absurd (h.2 _ hplus) (by decide)

/-- Three digits stand for the same bytes as six, each of them twice. -/
theorem hashedBytes_doubled_iff (x y z : Char) (bytes : RGB UInt8) :
    HashedBytes [x, x, y, y, z, z] bytes ↔ HashedBytes [x, y, z] bytes := by
  constructor
  · rintro ⟨⟩
    next hx hy hz =>
    exact .digits ((isPair_self_iff x _).mp hx) ((isPair_self_iff y _).mp hy)
      ((isPair_self_iff z _).mp hz)
  · rintro ⟨⟩
    next hx hy hz =>
    exact .pairs ((isPair_self_iff x _).mpr hx) ((isPair_self_iff y _).mpr hy)
      ((isPair_self_iff z _).mpr hz)

/-! ## Written bytes -/

/-- The digit written for a number below 16 has that value, is lowercase and not blank. -/
theorem digitChar_spec {n : ℕ} (h : n < 16) :
    hexValue? n.digitChar = some n ∧ n.digitChar.toLower = n.digitChar ∧
      Text.isBlank n.digitChar = false := by
  have hall : ∀ n < 16, hexValue? n.digitChar = some n ∧ n.digitChar.toLower = n.digitChar ∧
      Text.isBlank n.digitChar = false := by decide
  exact hall n h

/-- The digits written for bytes stand for these bytes. -/
theorem hashedBytes_hexByte (bytes : RGB UInt8) :
    HashedBytes (hexByte bytes.red ++ hexByte bytes.green ++ hexByte bytes.blue) bytes := by
  have hpair (byte : UInt8) :
      IsPair (byte.toNat / 16).digitChar (byte.toNat % 16).digitChar byte := by
    have hlt := byte.toNat_lt
    exact ⟨_, (digitChar_spec (Nat.mod_lt _ (by decide))).1,
      .inl ⟨_, (digitChar_spec (by omega)).1, (Nat.div_add_mod _ _).symm⟩⟩
  exact .pairs (hpair _) (hpair _) (hpair _)

/-- Written bytes are neither trimmed nor changed in case. -/
theorem trim_writeHashed (bytes : RGB UInt8) :
    (Text.trim (writeHashed bytes)).map Char.toLower = writeHashed bytes := by
  have hdigit : ∀ c ∈ hexByte bytes.red ++ hexByte bytes.green ++ hexByte bytes.blue,
      c.toLower = c ∧ Text.isBlank c = false := by
    have hbyte (byte : UInt8) : ∀ c ∈ hexByte byte, c.toLower = c ∧ Text.isBlank c = false := by
      have hlt := byte.toNat_lt
      simp only [hexByte, List.forall_mem_cons]
      exact ⟨(digitChar_spec (by omega)).2, (digitChar_spec (Nat.mod_lt _ (by decide))).2, by simp⟩
    simpa only [List.forall_mem_append] using
      ⟨⟨hbyte bytes.red, hbyte bytes.green⟩, hbyte bytes.blue⟩
  have hblank : Text.HasNoBlank (writeHashed bytes) :=
    List.forall_mem_cons.mpr ⟨by decide, fun c hc => (hdigit c hc).2⟩
  rw [Text.trim_of_hasNoBlank hblank, writeHashed, List.map_cons,
    List.map_congr_left fun c hc => (hdigit c hc).1, List.map_id']
  rfl

variable {α : Type} [Scalar α] [Numeral α] [ColorModel α]

/-- After a hash sign, the color is that of the bytes read. -/
theorem read_eq_readHashed {text digits : List Char}
    (h : (Text.trim text).map Char.toLower = '#' :: digits) :
    (read text : Except ColorError (Color α)) = (readHashed digits).map ofBytes := by
  rw [read, h]
  rfl

/-- A text that starts with a hash sign, apart from white space, is read exactly if three bytes
follow in hexadecimal digits, one digit or a pair for each, where a plus sign may stand for the
first digit of a pair. All others are rejected for their characters. Texts without plus signs
are therefore read exactly if they consist of three or six digits. Digits that are doubled mean
the same, and written bytes are read back. No channel reaches beyond the end of the text or is
more than a byte holds. -/
theorem read_of_hash {text digits : List Char}
    (h : (Text.trim text).map Char.toLower = '#' :: digits) :
    (∀ c : Color α, read text = .ok c ↔ ∃ bytes, HashedBytes digits bytes ∧ c = ofBytes bytes) ∧
    (∀ cause, (read text : Except ColorError (Color α)) = .error cause →
      cause = .unexpectedCharacters ∨ cause = .malformedHex) ∧
    ('+' ∉ digits → ((∃ bytes, HashedBytes digits bytes) ↔ IsHexNotation digits)) ∧
    ('+' ∈ digits → ¬ IsHexNotation digits) ∧
    (∀ x y z bytes, HashedBytes [x, x, y, y, z, z] bytes ↔ HashedBytes [x, y, z] bytes) ∧
    (∀ bytes, readHashed (writeHashed bytes).tail = .ok bytes ∧
      read (writeHashed bytes) = .ok (ofBytes bytes : Color α)) ∧
    (∀ width before after, digits = before ++ after → byteLength digits = 3 * width →
      (byteLength before = 0 ∨ byteLength before = width ∨ byteLength before = 2 * width) →
      takeBytes? width after = none → DividesCharacter width after) ∧
    ∀ field n, hex? field = some n →
      (byteLength field = 1 → n * 17 < 256) ∧ (byteLength field = 2 → n < 256) := by
  refine ⟨?_, ?_, exists_hashedBytes_iff, not_isHexNotation_of_mem, hashedBytes_doubled_iff, ?_, ?_,
    fun field n hn => hex?_fits hn⟩
  · intro c
    rw [read_eq_readHashed h]
    constructor
    · intro hread
      cases hdigits : readHashed digits with
      | error cause => simp [hdigits, Except.map] at hread
      | ok bytes =>
        rw [hdigits] at hread
        exact ⟨bytes, (readHashed_eq_ok_iff digits bytes).mp hdigits, (Except.ok.inj hread).symm⟩
    · rintro ⟨bytes, hbytes, rfl⟩
      rw [(readHashed_eq_ok_iff digits bytes).mpr hbytes]
      rfl
  · intro cause hread
    rw [read_eq_readHashed h] at hread
    cases hdigits : readHashed digits with
    | error other =>
      rw [hdigits] at hread
      exact Except.error.inj hread ▸ readHashed_eq_error hdigits
    | ok bytes => simp [hdigits, Except.map] at hread
  · intro bytes
    have hbytes := (readHashed_eq_ok_iff _ bytes).mpr (hashedBytes_hexByte bytes)
    exact ⟨hbytes, by rw [read_eq_readHashed (trim_writeHashed bytes), hbytes]; rfl⟩
  · intro width before after hdigits hlength hbefore hnone
    refine dividesCharacter_of_takeBytes?_eq_none hnone ?_
    rw [hdigits, byteLength_append] at hlength
    omega

/-- The three and six digits of orange are read alike, whatever their case. -/
theorem read_of_hash_orange :
    (read " #F80\n".toList : Except ColorError (Color Float)) = .ok (ofBytes ⟨0xff, 0x88, 0x00⟩) ∧
      (read "#fF8800".toList : Except ColorError (Color Float)) =
        .ok (ofBytes ⟨0xff, 0x88, 0x00⟩) := by
  have hshort : HashedBytes "f80".toList ⟨0xff, 0x88, 0x00⟩ :=
    .digits ⟨15, by decide, by decide⟩ ⟨8, by decide, by decide⟩ ⟨0, by decide, by decide⟩
  have hlong := (hashedBytes_doubled_iff 'f' '8' '0' ⟨0xff, 0x88, 0x00⟩).mpr hshort
  have hfirst : (Text.trim " #F80\n".toList).map Char.toLower = '#' :: "f80".toList := by decide
  have hsecond : (Text.trim "#fF8800".toList).map Char.toLower = '#' :: "ff8800".toList := by decide
  exact ⟨((read_of_hash hfirst).1 _).mpr ⟨_, hshort, rfl⟩,
    ((read_of_hash hsecond).1 _).mpr ⟨_, hlong, rfl⟩⟩

/-- Three digits with a plus sign before each of them are read, though they are no hexadecimal
notation. -/
theorem read_plus_signs :
    (read "#+1+2+3".toList : Except ColorError (Color Float)) = .ok (ofBytes ⟨1, 2, 3⟩) ∧
      ¬ IsHexNotation "+1+2+3".toList := by
  have hdigits : (Text.trim "#+1+2+3".toList).map Char.toLower = '#' :: "+1+2+3".toList := by decide
  refine ⟨?_, not_isHexNotation_of_mem (by decide)⟩
  rw [read_eq_readHashed hdigits]
  rfl

end Color

end ColorWords
