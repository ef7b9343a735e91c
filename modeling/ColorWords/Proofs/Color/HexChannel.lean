import ColorWords.Color.Reader
import Mathlib.Data.List.Basic
import Mathlib.Tactic.IntervalCases
import Mathlib.Tactic.Tauto

/-!
# Channels in hexadecimal digits

A channel is a field of one or two bytes. Cuts that fall inside a character fail, and no cut
reaches beyond the end of a text. Reading a field is decided by its characters alone: it is a
digit, a pair of digits, or a digit after a plus sign, and never amounts to more than a byte
holds.
-/

namespace ColorWords.Color

/-! ## Cutting by bytes -/

@[simp] theorem byteLength_nil : byteLength [] = 0 := rfl

@[simp] theorem byteLength_cons (c : Char) (text : List Char) :
    byteLength (c :: text) = c.utf8Size + byteLength text := rfl

/-- The bytes of two texts in a row add up. -/
theorem byteLength_append (x y : List Char) :
    byteLength (x ++ y) = byteLength x + byteLength y := by
  induction x with
  | nil => simp
  | cons c x ih => rw [List.cons_append, byteLength_cons, ih, byteLength_cons, Nat.add_assoc]

/-- Only the empty text has no bytes. -/
theorem byteLength_eq_zero_iff (text : List Char) : byteLength text = 0 ↔ text = [] := by
  cases text with
  | nil => simp
  | cons c text =>
    have hpos := c.utf8Size_pos
    simp only [byteLength_cons, reduceCtorEq, iff_false]
    omega

/-- Cutting off the bytes of a beginning leaves the rest. -/
theorem takeBytes?_append (taken rest : List Char) :
    takeBytes? (byteLength taken) (taken ++ rest) = some (taken, rest) := by
  induction taken with
  | nil => simp [takeBytes?]
  | cons c taken ih =>
    have hpos := c.utf8Size_pos
    have hsize : byteLength (c :: taken) = c.utf8Size - 1 + byteLength taken + 1 := by
      rw [byteLength_cons]; omega
    have hrest : c.utf8Size - 1 + byteLength taken + 1 - c.utf8Size = byteLength taken := by omega
    rw [List.cons_append, hsize, takeBytes?, if_pos (by omega), hrest, ih]
    rfl

/-- Cutting off a number of bytes succeeds exactly where a beginning has that many. -/
theorem takeBytes?_eq_some_iff (size : ℕ) (text taken rest : List Char) :
    takeBytes? size text = some (taken, rest) ↔ text = taken ++ rest ∧ byteLength taken = size := by
  constructor
  · intro h
    induction text generalizing size taken with
    | nil =>
      cases size with
      | zero => simp_all [takeBytes?]
      | succ size => simp [takeBytes?] at h
    | cons c text ih =>
      cases size with
      | zero =>
        simp only [takeBytes?, Option.some.injEq, Prod.mk.injEq] at h
        obtain ⟨rfl, rfl⟩ := h
        simp
      | succ size =>
        rw [takeBytes?] at h
        split at h
        · next hfits =>
          obtain ⟨⟨others, left⟩, hothers, hpair⟩ := Option.map_eq_some_iff.mp h
          obtain ⟨rfl, rfl⟩ := Prod.mk.inj hpair
          obtain ⟨rfl, hlength⟩ := ih _ _ hothers
          exact ⟨rfl, by rw [byteLength_cons, hlength]; omega⟩
        · simp at h
  · rintro ⟨rfl, rfl⟩
    exact takeBytes?_append taken rest

/-- A cut after the given number of bytes would divide a character. -/
def DividesCharacter (size : ℕ) (text : List Char) : Prop :=
  ∃ before c after, text = before ++ c :: after ∧ byteLength before < size ∧
    size < byteLength before + c.utf8Size

/-- Where a text has enough bytes, cutting fails only inside a character. -/
theorem dividesCharacter_of_takeBytes?_eq_none {size : ℕ} {text : List Char}
    (h : takeBytes? size text = none) (hsize : size ≤ byteLength text) :
    DividesCharacter size text := by
  induction text generalizing size with
  | nil =>
    obtain rfl : size = 0 := Nat.le_zero.mp hsize
    simp [takeBytes?] at h
  | cons c text ih =>
    cases size with
    | zero => simp [takeBytes?] at h
    | succ size =>
      rw [takeBytes?] at h
      split at h
      · next hfits =>
        rw [byteLength_cons] at hsize
        obtain ⟨before, d, after, rfl, hbefore, hafter⟩ :=
          ih (Option.map_eq_none_iff.mp h) (by omega)
        refine ⟨c :: before, d, after, rfl, ?_, ?_⟩ <;> rw [byteLength_cons] <;> omega
      · next hlong => exact ⟨[], c, text, rfl, by simp, by simpa using hlong⟩

/-! ## Digits -/

/-- The hexadecimal digits in both cases. -/
def IsHexDigit (c : Char) : Prop := c ∈ "0123456789abcdefABCDEF".toList

instance (c : Char) : Decidable (IsHexDigit c) :=
  inferInstanceAs (Decidable (c ∈ "0123456789abcdefABCDEF".toList))

/-- The digits by their code points. -/
theorem isHexDigit_iff (c : Char) :
    IsHexDigit c ↔ 48 ≤ c.toNat ∧ c.toNat ≤ 57 ∨ 97 ≤ c.toNat ∧ c.toNat ≤ 102 ∨
      65 ≤ c.toNat ∧ c.toNat ≤ 70 := by
  constructor
  · have hall : "0123456789abcdefABCDEF".toList.Forall fun d => 48 ≤ d.toNat ∧ d.toNat ≤ 57 ∨
        97 ≤ d.toNat ∧ d.toNat ≤ 102 ∨ 65 ≤ d.toNat ∧ d.toNat ≤ 70 := by decide
    exact List.forall_iff_forall_mem.mp hall c
  · intro h
    rw [← Char.ofNat_toNat c]
    generalize c.toNat = n at h
    obtain ⟨_, _⟩ | ⟨_, _⟩ | ⟨_, _⟩ := h <;> interval_cases n <;> decide

/-- Exactly the digits have a value. -/
theorem exists_hexValue?_iff (c : Char) : (∃ n, hexValue? c = some n) ↔ IsHexDigit c := by
  have hrange (low high : Char) :
      low ≤ c ∧ c ≤ high ↔ low.toNat ≤ c.toNat ∧ c.toNat ≤ high.toNat := Iff.rfl
  rw [isHexDigit_iff, hexValue?]
  simp only [hrange]
  constructor
  · rintro ⟨n, h⟩
    split at h
    · next hdecimal => exact .inl hdecimal
    · split at h
      · next hlower => exact .inr (.inl hlower)
      · split at h
        · next hupper => exact .inr (.inr hupper)
        · simp at h
  · intro h
    split
    · exact ⟨_, rfl⟩
    · split
      · exact ⟨_, rfl⟩
      · split
        · exact ⟨_, rfl⟩
        · next hdecimal hlower hupper => exact absurd h (by tauto)

/-- A digit takes up one byte, and its value is below 16. -/
theorem of_hexValue?_eq_some {c : Char} {n : ℕ} (h : hexValue? c = some n) :
    c.utf8Size = 1 ∧ n < 16 := by
  have hall : "0123456789abcdefABCDEF".toList.Forall fun d =>
      d.utf8Size = 1 ∧ ∃ m < 16, hexValue? d = some m := by decide
  obtain ⟨hsize, m, hm, hvalue⟩ :=
    List.forall_iff_forall_mem.mp hall c ((exists_hexValue?_iff c).mp ⟨n, h⟩)
  rw [h, Option.some.injEq] at hvalue
  exact ⟨hsize, hvalue ▸ hm⟩

/-- A plus sign has no value as a digit. -/
theorem hexValue?_plus : hexValue? '+' = none := by decide

/-- A number of one character is a digit. -/
theorem hex?_singleton (c : Char) : hex? [c] = hexValue? c := by
  unfold hex?
  split
  · next heq => simp at heq
  · simp only [hexFrom?]
    cases hexValue? c <;> simp

/-- A number of two characters consists of digits, or of a plus sign and a digit. -/
theorem hex?_pair (c d : Char) :
    hex? [c, d] =
      if c = '+' then hexValue? d
      else (hexValue? c).bind fun m => (hexValue? d).map fun n => 16 * m + n := by
  unfold hex?
  split
  · next heq =>
    obtain ⟨rfl, rfl, rfl⟩ : c = '+' ∧ _ := by simpa using heq
    simp only [hexFrom?, if_true]
    cases hexValue? d <;> simp
  · next hplus =>
    have hc : c ≠ '+' := fun hc => hplus d [] (by rw [hc])
    simp only [hexFrom?, if_neg hc]
    cases hexValue? c <;> cases hexValue? d <;> simp

/-! ## Channels -/

/-- A digit on its own stands for the byte with that digit twice. -/
def IsDoubled (c : Char) (byte : UInt8) : Prop :=
  ∃ n, hexValue? c = some n ∧ byte.toNat = 16 * n + n

/-- Two digits stand for a byte, and so do a plus sign and one digit. -/
def IsPair (c d : Char) (byte : UInt8) : Prop :=
  ∃ n, hexValue? d = some n ∧
    ((∃ m, hexValue? c = some m ∧ byte.toNat = 16 * m + n) ∨ c = '+' ∧ byte.toNat = n)

/-- A digit takes up one byte. -/
theorem IsDoubled.utf8Size {c : Char} {byte : UInt8} (h : IsDoubled c byte) : c.utf8Size = 1 := by
  obtain ⟨n, hn, -⟩ := h
  exact (of_hexValue?_eq_some hn).1

/-- Both characters of a pair take up one byte. -/
theorem IsPair.utf8Size {c d : Char} {byte : UInt8} (h : IsPair c d byte) :
    c.utf8Size = 1 ∧ d.utf8Size = 1 := by
  obtain ⟨n, hn, ⟨m, hm, -⟩ | ⟨rfl, -⟩⟩ := h
  · exact ⟨(of_hexValue?_eq_some hm).1, (of_hexValue?_eq_some hn).1⟩
  · exact ⟨rfl, (of_hexValue?_eq_some hn).1⟩

/-- A single digit stands for the same byte as two equal ones. -/
theorem isPair_self_iff (c : Char) (byte : UInt8) : IsPair c c byte ↔ IsDoubled c byte := by
  constructor
  · rintro ⟨n, hn, ⟨m, hm, hbyte⟩ | ⟨rfl, -⟩⟩
    · rw [hn, Option.some.injEq] at hm
      exact ⟨n, hn, hm ▸ hbyte⟩
    · simp [hexValue?_plus] at hn
  · rintro ⟨n, hn, hbyte⟩
    exact ⟨n, hn, .inl ⟨n, hn, hbyte⟩⟩

/-- A field of one byte is a single character. -/
theorem byteLength_eq_one_iff (field : List Char) :
    byteLength field = 1 ↔ ∃ c, field = [c] ∧ c.utf8Size = 1 := by
  constructor
  · intro h
    cases field with
    | nil => simp at h
    | cons c rest =>
      have hpos := c.utf8Size_pos
      rw [byteLength_cons] at h
      obtain rfl : rest = [] := (byteLength_eq_zero_iff rest).mp (by omega)
      exact ⟨c, rfl, by omega⟩
  · rintro ⟨c, rfl, hc⟩
    simpa using hc

/-- A field of two bytes is one character, or two of one byte each. -/
theorem byteLength_eq_two_iff (field : List Char) :
    byteLength field = 2 ↔
      (∃ c, field = [c] ∧ c.utf8Size = 2) ∨
        ∃ c d, field = [c, d] ∧ c.utf8Size = 1 ∧ d.utf8Size = 1 := by
  constructor
  · intro h
    cases field with
    | nil => simp at h
    | cons c rest =>
      have hpos := c.utf8Size_pos
      rw [byteLength_cons] at h
      rcases Nat.lt_or_ge 1 c.utf8Size with hc | hc
      · obtain rfl : rest = [] := (byteLength_eq_zero_iff rest).mp (by omega)
        exact .inl ⟨c, rfl, by omega⟩
      · obtain ⟨d, rfl, hd⟩ := (byteLength_eq_one_iff rest).mp (by omega)
        exact .inr ⟨c, d, rfl, by omega, hd⟩
  · rintro (⟨c, rfl, hc⟩ | ⟨c, d, rfl, hc, hd⟩) <;> simp [*]

/-- The number in a field of one or two bytes fits a byte, doubled if it is a single digit. -/
theorem hex?_fits {field : List Char} {n : ℕ} (h : hex? field = some n) :
    (byteLength field = 1 → n * 17 < 256) ∧ (byteLength field = 2 → n < 256) := by
  constructor
  · intro hlength
    obtain ⟨c, rfl, -⟩ := (byteLength_eq_one_iff field).mp hlength
    rw [hex?_singleton] at h
    have hn := (of_hexValue?_eq_some h).2
    omega
  · intro hlength
    obtain ⟨c, rfl, hc⟩ | ⟨c, d, rfl, -, -⟩ := (byteLength_eq_two_iff field).mp hlength
    · rw [hex?_singleton] at h
      exact absurd (hc.symm.trans (of_hexValue?_eq_some h).1) (by decide)
    · rw [hex?_pair] at h
      split at h
      · have hn := (of_hexValue?_eq_some h).2
        omega
      · obtain ⟨m, hm, h⟩ := Option.bind_eq_some_iff.mp h
        obtain ⟨k, hk, rfl⟩ := Option.map_eq_some_iff.mp h
        have hm := (of_hexValue?_eq_some hm).2
        have hk := (of_hexValue?_eq_some hk).2
        omega

/-- A channel of one or two bytes is read exactly where a field of that length has a number, and
the byte is that number, doubled if it is a single digit. -/
theorem readChannel_eq_ok_iff {width : ℕ} (hwidth : width = 1 ∨ width = 2) (text rest : List Char)
    (byte : UInt8) :
    readChannel width text = .ok (byte, rest) ↔
      ∃ field n, text = field ++ rest ∧ byteLength field = width ∧ hex? field = some n ∧
        byte.toNat = if width = 1 then n * 17 else n := by
  have hbyte : ∀ field n, byteLength field = width → hex? field = some n →
      ((if width = 1 then (n * 17).toUInt8 else n.toUInt8) = byte ↔
        byte.toNat = if width = 1 then n * 17 else n) := by
    intro field n hlength hn
    rw [← UInt8.toNat_inj, eq_comm]
    rcases hwidth with rfl | rfl
    · rw [if_pos rfl, if_pos rfl, Nat.toUInt8_eq, UInt8.toNat_ofNat',
        Nat.mod_eq_of_lt ((hex?_fits hn).1 hlength)]
    · rw [if_neg (by decide), if_neg (by decide), Nat.toUInt8_eq, UInt8.toNat_ofNat',
        Nat.mod_eq_of_lt ((hex?_fits hn).2 hlength)]
  unfold readChannel
  constructor
  · intro h
    split at h
    · simp at h
    · next field left hfield =>
      split at h
      · simp at h
      · next n hn =>
        obtain ⟨hvalue, rfl⟩ := Prod.mk.inj (Except.ok.inj h)
        obtain ⟨htext, hlength⟩ := (takeBytes?_eq_some_iff ..).mp hfield
        exact ⟨field, n, htext, hlength, hn, (hbyte field n hlength hn).mp hvalue⟩
  · rintro ⟨field, n, rfl, rfl, hn, hvalue⟩
    rw [takeBytes?_append]
    simp only [hn, (hbyte field n rfl hn).mpr hvalue]

/-- A channel of one byte is a digit. -/
theorem readChannel_one_eq_ok_iff (text rest : List Char) (byte : UInt8) :
    readChannel 1 text = .ok (byte, rest) ↔ ∃ c, text = c :: rest ∧ IsDoubled c byte := by
  rw [readChannel_eq_ok_iff (.inl rfl)]
  constructor
  · rintro ⟨field, n, rfl, hlength, hn, hbyte⟩
    obtain ⟨c, rfl, -⟩ := (byteLength_eq_one_iff field).mp hlength
    rw [hex?_singleton] at hn
    rw [if_pos rfl] at hbyte
    exact ⟨c, rfl, n, hn, by omega⟩
  · rintro ⟨c, rfl, n, hn, hbyte⟩
    have hc := of_hexValue?_eq_some hn
    exact ⟨[c], n, rfl, by simpa using hc.1, by rwa [hex?_singleton], by rw [if_pos rfl]; omega⟩

/-- A channel of two bytes is a pair of digits, or a plus sign and a digit. -/
theorem readChannel_two_eq_ok_iff (text rest : List Char) (byte : UInt8) :
    readChannel 2 text = .ok (byte, rest) ↔ ∃ c d, text = c :: d :: rest ∧ IsPair c d byte := by
  rw [readChannel_eq_ok_iff (.inr rfl)]
  constructor
  · rintro ⟨field, n, rfl, hlength, hn, hbyte⟩
    obtain ⟨c, rfl, hc⟩ | ⟨c, d, rfl, -, -⟩ := (byteLength_eq_two_iff field).mp hlength
    · rw [hex?_singleton] at hn
      exact absurd (hc.symm.trans (of_hexValue?_eq_some hn).1) (by decide)
    · refine ⟨c, d, rfl, ?_⟩
      rw [hex?_pair] at hn
      split at hn
      · next hplus => exact ⟨n, hn, .inr ⟨hplus, hbyte⟩⟩
      · obtain ⟨m, hm, hn⟩ := Option.bind_eq_some_iff.mp hn
        obtain ⟨k, hk, rfl⟩ := Option.map_eq_some_iff.mp hn
        exact ⟨k, hk, .inl ⟨m, hm, hbyte⟩⟩
  · rintro ⟨c, d, rfl, n, hn, hbyte⟩
    have hd := (of_hexValue?_eq_some hn).1
    rcases hbyte with ⟨m, hm, hbyte⟩ | ⟨rfl, hbyte⟩
    · have hc := (of_hexValue?_eq_some hm).1
      have hplus : c ≠ '+' := fun hplus => by simp [hplus, hexValue?_plus] at hm
      refine ⟨[c, d], 16 * m + n, rfl, by simp [hc, hd], ?_, hbyte⟩
      rw [hex?_pair, if_neg hplus, hm, hn]
      rfl
    · refine ⟨['+', d], n, rfl, ?_, by rw [hex?_pair, if_pos rfl, hn], hbyte⟩
      rw [byteLength_cons, byteLength_cons, hd]
      rfl

/-- A channel that cannot be read has unexpected or malformed characters. -/
theorem readChannel_eq_error {width : ℕ} {text : List Char} {cause : ColorError}
    (h : readChannel width text = .error cause) :
    cause = .unexpectedCharacters ∨ cause = .malformedHex := by
  unfold readChannel at h
  split at h
  · exact .inl (Except.error.inj h).symm
  · split at h
    · exact .inr (Except.error.inj h).symm
    · simp at h

end ColorWords.Color
