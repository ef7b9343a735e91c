import ColorWords.Proofs.Color.Alike
import ColorWords.Proofs.Description.Rewording
import ColorWords.Proofs.Palette.Lookup
import ColorWords.Proofs.Scalar.Binary64Alike
import ColorWords.Proofs.Text.Ascii

/-!
# Descriptions made of names

The names that a palette accepts are exactly the texts that are read as one word. So every name of a
palette can be described, unless it has the shape of an adjective, and names with separators between
them describe the mix of their colors. A single name describes its own color, up to the signs of
zeros, which equality of colors does not see.
-/

namespace ColorWords

open Description Scalar

/-! ## The name check -/

namespace Draft

/-- A name passes the check exactly if it is its own and only word. -/
theorem isName_eq_true_iff_words (name : String) :
    isName name = true ↔ words name = [name] := by
  rw [isName_eq_true_iff, words_eq_singleton_iff]

variable {α : Type}

/-- A name that is reported as invalid is a name of the draft, and it is not its own and only
word. -/
theorem of_invalidName {draft : Draft α} {name : String}
    (h : draft.build = .error (.invalidName name)) :
    name ∈ draft.allNames ∧ words name ≠ [name] := by
  rw [build_eq_error_iff, error?_eq_some_iff] at h
  generalize herror : PaletteError.invalidName name = error at h
  cases h with
  | @name before after other hnames hbefore hname =>
    unfold offence at herror
    split at herror
    · cases herror
    · next hword =>
      cases herror
      rw [Ne, words_eq_singleton_iff, hnames]
      exact ⟨List.mem_append_right _ List.mem_cons_self, hword⟩
  | target => cases herror

/-- Unless a name is used twice, a name is reported as invalid exactly if there is one that is not
its own and only word. -/
theorem exists_invalidName_iff {draft : Draft α} (hnodup : draft.allNames.Nodup) :
    (∃ name, draft.build = .error (.invalidName name)) ↔
      ∃ name ∈ draft.allNames, words name ≠ [name] := by
  constructor
  · rintro ⟨name, h⟩
    exact ⟨name, of_invalidName h⟩
  · rintro ⟨bad, hbad, hwords⟩
    rw [Ne, words_eq_singleton_iff] at hwords
    have hunsound : ¬ SoundNames draft.allNames := fun hsound => hwords (hsound.1 bad hbad)
    obtain ⟨before, name, after, hnames, hbefore, hname⟩ := exists_first_offence hunsound
    -- No name is used twice, so the first offence is a name that is no word.
    have hfresh : name ∉ before := by
      rw [hnames] at hnodup
      exact fun hmem => (List.nodup_append.mp hnodup).2.2 name hmem name List.mem_cons_self rfl
    have hword := hname.resolve_right hfresh
    refine ⟨name, (build_eq_error_iff _ _).mpr ?_⟩
    rw [error?_of_offends hnames hbefore hname, offence, if_neg hword]

end Draft

/-! ## Names in descriptions -/

namespace Palette

variable {α : Type} [Scalar α]

/-- Names that are known are not remarked on. -/
theorem notices_ofText_of_names (palette : Palette α) {text : String}
    (h : ∀ word ∈ words text, word ∈ palette.allNames) :
    (Reading.ofText palette text).notices = [] := by
  rw [Reading.notices_ofText, List.map_eq_nil_iff, List.filter_eq_nil_iff]
  intro word hword
  obtain ⟨color, hcolor⟩ := (palette.exists_get?_iff word).mpr (h word hword)
  simp [hcolor]

variable [SignedZeros α]

/-- A description without adjectives describes the mix of the colors named, mapped into the
gamut. -/
theorem colorOf_eq_toGamut [GamutMap α] (palette : Palette α) {text : String}
    (h : ∀ word ∈ words text, Adjective.ofWord? word = none) :
    palette.colorOf text = (Color.mix ((words text).map palette.lookup)).toGamut := by
  obtain ⟨hadjectives, hnames⟩ := parts_of_names h
  have hzero : IsZero (Accumulator.ofList ([] : List α)).total :=
    (SignedZeros.alike_zero_add isZero_zero 0.0).symm.isZero isZero_zero
  have hnotPositive := fun hlt => OrderedScalar.not_le_of_lt hlt hzero.1
  have hnotNegative := fun hlt => OrderedScalar.not_le_of_lt hlt hzero.2
  unfold colorOf Reading.color Reading.base
  simp only [Reading.ofText_eq_parts, hadjectives, hnames, List.map_nil, Color.shiftLightness,
    if_neg hnotPositive, if_neg hnotNegative]

/-- The colors of a palette of normal colors are normal. -/
theorem isNormal_lookup {palette : Palette α} (h : ∀ entry ∈ palette.entries, entry.2.IsNormal)
    (name : String) : (palette.lookup name).IsNormal := by
  unfold lookup
  cases hget : palette.get? name with
  | none => exact Color.isNormal_neutral
  | some color =>
    rcases (palette.get?_eq_some_iff name color).mp hget with hentry | ⟨target, -, hentry⟩
    · exact h _ hentry
    · exact h _ hentry

/-- Functions that are right at zero, at one and at quarter turns. -/
@[reducible] def quarterTurns (α : Type) [Scalar α] : Elementary α where
  squareRoot x := x
  cubeRoot x := x
  power x _ := x
  euclidean x y := magnitude x + magnitude y
  bearing b a :=
    if b < 0.0 then -90.0 else if 0.0 < b then 90.0 else if a < 0.0 then 180.0 else 0.0
  cosine degrees := 1.0 - magnitude degrees / 90.0
  sine degrees := 1.0 - magnitude (degrees - 90.0) / 90.0

/-- The sign of a zero makes no difference to these functions. -/
theorem ignoresZeroSigns_quarterTurns : @Elementary.IgnoresZeroSigns α _ (quarterTurns α) := by
  let _ := quarterTurns α
  have hflat {b : α} (hb : IsZero b) (a : α) :
      Elementary.bearing b a = if a < 0.0 then 180.0 else 0.0 := by
    have hnegative : ¬ b < 0.0 := fun hlt => OrderedScalar.not_le_of_lt hlt hb.2
    have hpositive : ¬ 0.0 < b := fun hlt => OrderedScalar.not_le_of_lt hlt hb.1
    exact (if_neg hnegative).trans (if_neg hpositive)
  constructor
  case squareRoot => exact id
  case cubeRoot => exact id
  case cosine => exact fun h => (Alike.refl _).sub (h.magnitude.div _)
  case sine => exact fun h => (Alike.refl _).sub ((h.sub (Alike.refl _)).magnitude.div _)
  case euclidean => exact fun hx hy => hx.magnitude.add hy.magnitude
  case bearing_off_axis =>
    intro b a a' _ h
    exact rel_ite Iff.rfl (Alike.refl _) (rel_ite Iff.rfl (Alike.refl _)
      (rel_ite (h.lt_iff (Alike.refl _)) (Alike.refl _) (Alike.refl _)))
  case bearing_right =>
    intro b a hb ha
    rw [hflat hb, if_neg fun hlt => OrderedScalar.not_le_of_lt hlt (OrderedScalar.le_of_lt ha)]
    exact isZero_zero
  case bearing_left =>
    intro b a hb ha
    rw [hflat hb, if_pos ha]
    exact Or.inl rfl

/-- A palette of two dark grays. One of them has a negative zero, where zeros have signs. -/
def coal (α : Type) [Scalar α] : Palette α where
  entries := [("coal", ⟨⟨0.1, -0.0, 0.0⟩, 1.0⟩), ("soot", ⟨⟨0.05, 0.0, 0.0⟩, 0.5⟩)]
  aliases := []
  valid := by
    have hnames : Draft.SoundNames ["coal", "soot"] := ⟨by decide, by decide⟩
    rw [Draft.error?_eq_none_iff]
    exact ⟨hnames, nofun⟩

/-- The name check and the words of descriptions agree: a name passes the check exactly if it is
its own and only word, drafts without a name used twice have an invalid name exactly if one of
their names is not, and the names of palettes are their own and only words. So names of a palette
without the shape of adjectives, joined by any nonempty separators, describe the mix of their
colors in order, mapped into the gamut, and no name is unknown. A single name describes a color
that is equal to its own, mapped into the gamut. -/
theorem colorOf_of_names [Numeral α] [Elementary α]
    (hfunctions : Elementary.IgnoresZeroSigns α) :
    (∀ name, Draft.isName name = true ↔ words name = [name]) ∧
    (∀ name, Draft.isName name = true ↔
      name ≠ "" ∧ ∀ byte ∈ Text.bytes name, Text.IsLetterByte byte) ∧
    (∀ (draft : Draft α) (name : String), draft.build = .error (.invalidName name) →
      name ∈ draft.allNames ∧ words name ≠ [name]) ∧
    (∀ draft : Draft α, draft.allNames.Nodup →
      ((∃ name, draft.build = .error (.invalidName name)) ↔
        ∃ name ∈ draft.allNames, words name ≠ [name])) ∧
    ∀ palette : Palette α,
      (∀ name ∈ palette.allNames, words name = [name]) ∧
      (∀ (names : List String) (text : String), IsJoined names text →
        (∀ name ∈ names, name ∈ palette.allNames ∧ Adjective.ofWord? name = none) →
        palette.colorOf text = (Color.mix (names.map palette.lookup)).toGamut ∧
          (Reading.ofText palette text).notices = []) ∧
      ((∀ entry ∈ palette.entries, entry.2.IsNormal) →
        ∀ name ∈ palette.allNames, Adjective.ofWord? name = none →
          (palette.colorOf name == (palette.lookup name).toGamut) = true) := by
  have hbytes (name : String) : Draft.isName name = true ↔
      name ≠ "" ∧ ∀ byte ∈ Text.bytes name, Text.IsLetterByte byte := by
    rw [Draft.isName_eq_true_iff, Text.isWord_iff_bytes]
  refine ⟨Draft.isName_eq_true_iff_words, hbytes, fun _ _ => Draft.of_invalidName,
    fun _ => Draft.exists_invalidName_iff, fun palette => ?_⟩
  have hwords : ∀ name ∈ palette.allNames, words name = [name] := fun name hname =>
    (words_eq_singleton_iff name).mpr (palette.isSound.names.1 name hname)
  refine ⟨hwords, fun names text hjoined hnames => ?_, fun hnormal name hname hplain => ?_⟩
  · have htext : words text = names := hjoined.words_eq fun name hname =>
      palette.isSound.names.1 name (hnames name hname).1
    constructor
    · rw [palette.colorOf_eq_toGamut fun word hword => (hnames word (htext ▸ hword)).2, htext]
    · exact palette.notices_ofText_of_names fun word hword => (hnames word (htext ▸ hword)).1
  · have hsingle : ∀ word ∈ words name, Adjective.ofWord? word = none := by
      rw [hwords name hname, List.forall_mem_singleton]
      exact hplain
    rw [palette.colorOf_eq_toGamut hsingle, hwords name hname, List.map_singleton]
    have halike := Color.channelwise_mix_singleton (isNormal_lookup hnormal name)
    exact (halike.toGamut hfunctions).beq_eq_true (Color.isNormal_make _ _)

/-- In floats the mix of the one color has lost the sign of its zero, and the color described is
equal to it all the same. So it is in exact arithmetic, where zero has no sign. -/
theorem colorOf_of_names_coal :
    (∃ _ : Elementary Float, Elementary.IgnoresZeroSigns Float ∧
      (coal Float).colorOf "coal, soot" =
        (Color.mix [(coal Float).lookup "coal", (coal Float).lookup "soot"]).toGamut ∧
      ((coal Float).colorOf "coal" == ((coal Float).lookup "coal").toGamut) = true) ∧
    ∃ _ : Elementary ℚ, Elementary.IgnoresZeroSigns ℚ ∧
      ((coal ℚ).colorOf "coal" == ((coal ℚ).lookup "coal").toGamut) = true := by
  have hplain : ∀ name ∈ ["coal", "soot"], Adjective.ofWord? name = none := by decide
  have hcoal : "coal" ∈ ["coal", "soot"] := List.mem_cons_self
  have hjoined : IsJoined ["coal", "soot"] ("coal" ++ ", " ++ "soot") :=
    .cons "coal" (by decide) (by decide) (.single "soot")
  constructor
  · let _ := quarterTurns Float
    have hfunctions : Elementary.IgnoresZeroSigns Float := ignoresZeroSigns_quarterTurns
    obtain ⟨-, -, -, -, hpalettes⟩ := colorOf_of_names hfunctions
    obtain ⟨-, hmix, hsingle⟩ := hpalettes (coal Float)
    have hnormal : ∀ entry ∈ (coal Float).entries, entry.2.IsNormal := by
      simp only [coal, List.forall_mem_cons]
      refine ⟨?_, ?_, List.forall_mem_nil _⟩ <;> constructor <;> constructor <;> decide +kernel
    exact ⟨quarterTurns Float, hfunctions, (hmix _ _ hjoined fun name h => ⟨h, hplain name h⟩).1,
      hsingle hnormal "coal" hcoal (hplain _ hcoal)⟩
  · let _ := quarterTurns ℚ
    have hfunctions : Elementary.IgnoresZeroSigns ℚ := ignoresZeroSigns_quarterTurns
    obtain ⟨-, -, -, -, hpalettes⟩ := colorOf_of_names hfunctions
    obtain ⟨-, -, hsingle⟩ := hpalettes (coal ℚ)
    have hnormal : ∀ entry ∈ (coal ℚ).entries, entry.2.IsNormal := by
      simp only [coal, List.forall_mem_cons]
      refine ⟨?_, ?_, List.forall_mem_nil _⟩ <;> constructor <;> constructor <;>
        norm_num [Lab.axisLimit]
    exact ⟨quarterTurns ℚ, hfunctions, hsingle hnormal "coal" hcoal (hplain _ hcoal)⟩

end Palette

end ColorWords
