import ColorWords.Proofs.Text.Ascii
import ColorWords.Proofs.Text.Cuts

/-!
# White space, fields and the case of letters

Trimming takes off the white space around a text and nothing else, and the fields of a text are
its pieces without white space, in order. Lowering letters moves none of the characters that cut
a text, so it changes neither where a text is trimmed nor where it is cut.
-/

namespace ColorWords.Text

/-! ## White space around a text -/

/-- All characters of the text are white space. -/
def AllBlank (text : List Char) : Prop := ∀ c ∈ text, isBlank c = true

instance (text : List Char) : Decidable (AllBlank text) :=
  decidable_of_iff (text.all isBlank = true) List.all_eq_true

instance (text : List Char) : Decidable (HasNoBlank text) :=
  decidable_of_iff (text.all (!isBlank ·) = true) (by simp [HasNoBlank])

/-- Drop trailing white space. -/
def trimEnd (text : List Char) : List Char := (trimStart text.reverse).reverse

/-- Trimming drops leading and then trailing white space. -/
theorem trim_eq_trimEnd (text : List Char) : trim text = trimEnd (trimStart text) := rfl

/-- Leading white space is dropped. -/
theorem trimStart_append {before : List Char} (h : AllBlank before) (text : List Char) :
    trimStart (before ++ text) = trimStart text :=
  List.dropWhile_append_of_pos h

/-- Trailing white space is dropped. -/
theorem trimEnd_append {after : List Char} (h : AllBlank after) (text : List Char) :
    trimEnd (text ++ after) = trimEnd text := by
  have hreverse : AllBlank after.reverse := fun c hc => h c (List.mem_reverse.mp hc)
  rw [trimEnd, List.reverse_append, trimStart_append hreverse, trimEnd]

/-- White space alone is dropped altogether. -/
theorem trimStart_eq_nil_iff (text : List Char) : trimStart text = [] ↔ AllBlank text :=
  List.dropWhile_eq_nil_iff

/-- What comes before a character that is not white space stays. -/
theorem trimEnd_append_cons {c : Char} (hc : isBlank c = false) (before after : List Char) :
    trimEnd (before ++ c :: after) = before ++ c :: trimEnd after := by
  have hjoin : (before ++ c :: after).reverse = after.reverse ++ c :: before.reverse := by simp
  rw [trimEnd, hjoin, trimEnd, trimStart, List.dropWhile_append]
  split
  · next hnil =>
    have hafter : trimStart after.reverse = [] := List.isEmpty_iff.mp hnil
    rw [← trimStart, trimStart_cons hc, hafter]
    simp
  · simp [trimStart]

/-- Trailing white space is dropped from what comes last, unless this is white space alone. -/
theorem trimEnd_append_of_not_allBlank {text : List Char} (h : ¬ AllBlank text)
    (before : List Char) : trimEnd (before ++ text) = before ++ trimEnd text := by
  simp only [AllBlank, not_forall, Bool.not_eq_true] at h
  obtain ⟨c, hc, hdark⟩ := h
  obtain ⟨first, after, rfl⟩ := List.append_of_mem hc
  rw [← List.append_assoc, trimEnd_append_cons hdark, trimEnd_append_cons hdark, List.append_assoc]

/-- White space around a text is dropped. -/
theorem trim_append {before after : List Char} (hbefore : AllBlank before)
    (hafter : AllBlank after) (text : List Char) : trim (before ++ text ++ after) = trim text := by
  rw [trim_eq_trimEnd, trim_eq_trimEnd, List.append_assoc, trimStart_append hbefore, trimStart,
    List.dropWhile_append]
  split
  · next hnil =>
    have htext : trimStart text = [] := List.isEmpty_iff.mp hnil
    rw [htext, ← trimStart, (trimStart_eq_nil_iff after).mpr hafter]
  · rw [trimEnd_append hafter, trimStart]

/-- Only white space is dropped at the beginning. -/
theorem exists_eq_append_trimStart (text : List Char) :
    ∃ before, AllBlank before ∧ text = before ++ trimStart text :=
  ⟨text.takeWhile isBlank, fun _ hc => List.mem_takeWhile_imp hc,
    List.takeWhile_append_dropWhile.symm⟩

/-- Only white space is dropped at the end. -/
theorem exists_eq_trimEnd_append (text : List Char) :
    ∃ after, AllBlank after ∧ text = trimEnd text ++ after := by
  obtain ⟨after, hafter, hreverse⟩ := exists_eq_append_trimStart text.reverse
  refine ⟨after.reverse, fun c hc => hafter c (List.mem_reverse.mp hc), ?_⟩
  rw [trimEnd, ← List.reverse_append, ← hreverse, List.reverse_reverse]

/-- There is nothing but white space around the trimmed text. -/
theorem exists_eq_append_trim (text : List Char) :
    ∃ before after, AllBlank before ∧ AllBlank after ∧ text = before ++ trim text ++ after := by
  obtain ⟨before, hbefore, hstart⟩ := exists_eq_append_trimStart text
  obtain ⟨after, hafter, hend⟩ := exists_eq_trimEnd_append (trimStart text)
  refine ⟨before, after, hbefore, hafter, ?_⟩
  rw [trim_eq_trimEnd, List.append_assoc, ← hend, ← hstart]

/-- Trimming leaves nothing exactly of white space. -/
theorem trim_eq_nil_iff (text : List Char) : trim text = [] ↔ AllBlank text := by
  constructor
  · intro hnil
    obtain ⟨before, after, hbefore, hafter, htext⟩ := exists_eq_append_trim text
    rw [htext, hnil, List.append_nil]
    exact List.forall_mem_append.mpr ⟨hbefore, hafter⟩
  · intro h
    rw [trim, (trimStart_eq_nil_iff text).mpr h]
    rfl

/-- White space has no other character. -/
theorem AllBlank.not_mem {text : List Char} (h : AllBlank text) {d : Char}
    (hd : isBlank d = false) : d ∉ text :=
  fun hmem => Bool.false_ne_true (hd.symm.trans (h d hmem))

/-- Trimming takes off no character but white space. -/
theorem mem_trim_iff {d : Char} (hd : isBlank d = false) (text : List Char) :
    d ∈ trim text ↔ d ∈ text := by
  obtain ⟨before, after, hbefore, hafter, htext⟩ := exists_eq_append_trim text
  conv_rhs => rw [htext]
  simp [hbefore.not_mem hd, hafter.not_mem hd]

/-! ## Fields -/

/-- The text consists of the given fields, with white space around them and at least one blank
between any two of them. -/
inductive Separated : List Char → List (List Char) → Prop where
  | blank {text : List Char} (htext : AllBlank text) : Separated text []
  | field {before field rest : List Char} {others : List (List Char)} (hbefore : AllBlank before)
      (hne : field ≠ []) (hfield : HasNoBlank field)
      (hrest : ∀ c, rest.head? = some c → isBlank c = true) (hothers : Separated rest others) :
      Separated (before ++ field ++ rest) (field :: others)

/-- White space in front of a text adds no field. -/
theorem fields_append {before : List Char} (h : AllBlank before) (text : List Char) :
    fields (before ++ text) = fields text := by
  induction before with
  | nil => rfl
  | cons c before ih =>
    have hc : isBlank c = true := h c List.mem_cons_self
    have hbefore : AllBlank before := fun d hd => h d (List.mem_cons_of_mem _ hd)
    have hbreak : (!isBlank c) = false := by simp [hc]
    exact (runs_append_cons hbreak [] (before ++ text)).trans (ih hbefore)

/-- The fields that a text consists of are its fields. -/
theorem Separated.fields_eq {text : List Char} {pieces : List (List Char)}
    (h : Separated text pieces) : fields text = pieces := by
  induction h with
  | @blank text htext =>
    rw [← List.append_nil text, fields_append htext]
    rfl
  | @field before piece rest others hbefore hne hfield hrest hothers ih =>
    have hpiece : fields piece = [piece] := runs_eq_singleton hne fun c hc => by simp [hfield c hc]
    rw [List.append_assoc, fields_append hbefore]
    cases rest with
    | nil =>
      rw [List.append_nil, hpiece, ← ih]
      rfl
    | cons c rest =>
      have hc : isBlank c = true := hrest c rfl
      have hskip : fields (c :: rest) = fields rest :=
        @fields_append [c] (List.forall_mem_singleton.mpr hc) rest
      rw [fields, runs_append_cons (by simp [hc]), ← fields, ← fields, hpiece, ← hskip, ih]
      rfl

/-- No field is empty. -/
theorem Separated.ne_nil {text : List Char} {pieces : List (List Char)}
    (h : Separated text pieces) : ∀ piece ∈ pieces, piece ≠ [] := by
  induction h with
  | blank => simp
  | field _ hne _ _ _ ih => exact List.forall_mem_cons.mpr ⟨hne, ih⟩

/-- Every text consists of fields. -/
theorem exists_separated (text : List Char) : ∃ pieces, Separated text pieces := by
  by_cases hblank : AllBlank text
  · exact ⟨[], .blank hblank⟩
  · -- The first field is what follows leading white space up to the next blank.
    have hstart : trimStart text ≠ [] := fun hnil => hblank ((trimStart_eq_nil_iff text).mp hnil)
    obtain ⟨c, tail, htail⟩ := List.exists_cons_of_ne_nil hstart
    have hc : isBlank c = false := by
      have hhead := List.head?_dropWhile_not isBlank text
      rwa [← trimStart, htail] at hhead
    let piece := c :: tail.takeWhile fun d => !isBlank d
    let rest := tail.dropWhile fun d => !isBlank d
    have htext : text = text.takeWhile isBlank ++ piece ++ rest := by
      have hsplit : piece ++ rest = trimStart text := by
        rw [htail]
        exact congrArg (c :: ·) List.takeWhile_append_dropWhile
      rw [List.append_assoc, hsplit, trimStart, List.takeWhile_append_dropWhile]
    have hpiece : HasNoBlank piece :=
      List.forall_mem_cons.mpr ⟨hc, fun d hd => by simpa using List.mem_takeWhile_imp hd⟩
    have hrest : ∀ d, rest.head? = some d → isBlank d = true := by
      intro d hd
      have hhead := List.head?_dropWhile_not (fun d => !isBlank d) tail
      rw [hd] at hhead
      simpa using hhead
    have hshorter : rest.length < text.length := by
      have hlength := congrArg List.length htext
      simp only [List.length_append, piece, List.length_cons] at hlength
      omega
    obtain ⟨others, hothers⟩ := exists_separated rest
    refine ⟨piece :: others, ?_⟩
    rw [htext]
    exact .field (fun _ hd => List.mem_takeWhile_imp hd) (List.cons_ne_nil _ _) hpiece hrest hothers
termination_by text.length

/-- A text consists of its fields. -/
theorem separated_fields (text : List Char) : Separated text (fields text) := by
  obtain ⟨pieces, hpieces⟩ := exists_separated text
  rwa [hpieces.fields_eq]

/-- The characters of fields are characters of the text, and the others are white space. -/
theorem Separated.mem_iff {text : List Char} {pieces : List (List Char)}
    (h : Separated text pieces) {c : Char} (hc : isBlank c = false) :
    c ∈ text ↔ ∃ piece ∈ pieces, c ∈ piece := by
  have hoff {blanks : List Char} (hblanks : AllBlank blanks) : c ∉ blanks := fun hmem =>
    Bool.false_ne_true (hc.symm.trans (hblanks c hmem))
  induction h with
  | blank htext => simp [hoff htext]
  | field hbefore _ _ _ _ ih => simp [hoff hbefore, ih]

/-! ## The case of letters -/

/-- Lowering a character leaves it alone unless it is a capital letter, which moves behind all
capitals. -/
theorem toLower_cases (c : Char) :
    c.toLower = c ∨ 65 ≤ c.toNat ∧ c.toNat ≤ 90 ∧ c.toLower.toNat = c.toNat + 32 := by
  unfold Char.toLower
  split
  · next hcapital =>
    have hlow : 65 ≤ c.toNat := UInt32.le_iff_toNat_le.mp hcapital.1
    have hhigh : c.toNat ≤ 90 := UInt32.le_iff_toNat_le.mp hcapital.2
    refine Or.inr ⟨hlow, hhigh, ?_⟩
    change (c.val + 32).toNat = c.val.toNat + 32
    have hsmall : c.val.toNat ≤ 90 := hhigh
    rw [UInt32.toNat_add]
    exact Nat.mod_eq_of_lt (by change c.val.toNat + 32 < _; omega)
  · exact Or.inl rfl

/-- Lowering leads to no character before the small letters but to those that stay. -/
theorem toLower_eq_iff {d : Char} (hd : d.toNat < 65) (c : Char) : c.toLower = d ↔ c = d := by
  rcases toLower_cases c with h | ⟨hlow, -, hlower⟩
  · rw [h]
  · constructor
    · rintro rfl
      omega
    · rintro rfl
      omega

/-- The case of letters does not matter for being white space. -/
theorem isBlank_toLower (c : Char) : isBlank c.toLower = isBlank c := by
  rcases toLower_cases c with h | ⟨hlow, hhigh, hlower⟩
  · rw [h]
  · rw [isBlank_of_toNat (by omega) (by omega), isBlank_of_toNat (by omega) (by omega)]

/-- Lower the letters of a text. -/
def lowered (text : List Char) : List Char := text.map Char.toLower

/-- Lowering a text twice does nothing more. -/
@[simp] theorem lowered_lowered (text : List Char) : lowered (lowered text) = lowered text := by
  simp [lowered]

/-- Texts in a row are lowered one by one. -/
@[simp] theorem lowered_append (x y : List Char) : lowered (x ++ y) = lowered x ++ lowered y :=
  List.map_append

/-- Lowering does not change which characters before the small letters are in a text. -/
theorem mem_lowered_iff {d : Char} (hd : d.toNat < 65) (text : List Char) :
    d ∈ lowered text ↔ d ∈ text := by
  simp [lowered, toLower_eq_iff hd]

/-- Leading white space is the same in a lowered text. -/
theorem trimStart_lowered (text : List Char) :
    trimStart (lowered text) = lowered (trimStart text) := by
  have hblank : isBlank ∘ Char.toLower = isBlank := funext isBlank_toLower
  rw [trimStart, lowered, List.dropWhile_map, hblank, trimStart, lowered]

/-- Trailing white space is the same in a lowered text. -/
theorem trimEnd_lowered (text : List Char) : trimEnd (lowered text) = lowered (trimEnd text) := by
  have hreverse : (lowered text).reverse = lowered text.reverse := List.map_reverse.symm
  rw [trimEnd, hreverse, trimStart_lowered, trimEnd, lowered, lowered, List.map_reverse]

/-- A lowered text is trimmed like the text itself. -/
theorem trim_lowered (text : List Char) : trim (lowered text) = lowered (trim text) := by
  rw [trim_eq_trimEnd, trim_eq_trimEnd, trimStart_lowered, trimEnd_lowered]

/-- White space is the same in a lowered text. -/
theorem allBlank_lowered_iff (text : List Char) : AllBlank (lowered text) ↔ AllBlank text := by
  rw [← trim_eq_nil_iff, trim_lowered, lowered, List.map_eq_nil_iff, trim_eq_nil_iff]

/-- A lowered text consists of lowered fields. -/
theorem Separated.lowered {text : List Char} {pieces : List (List Char)}
    (h : Separated text pieces) : Separated (lowered text) (pieces.map lowered) := by
  induction h with
  | blank htext => exact .blank ((allBlank_lowered_iff _).mpr htext)
  | @field before piece rest others hbefore hne hfield hrest hothers ih =>
    rw [lowered_append, lowered_append]
    refine .field ((allBlank_lowered_iff _).mpr hbefore) (mt List.map_eq_nil_iff.mp hne) ?_ ?_ ih
    · intro c hc
      obtain ⟨d, hd, rfl⟩ := List.mem_map.mp hc
      rw [isBlank_toLower, hfield d hd]
    · intro c hc
      obtain ⟨d, hd, rfl⟩ := Option.map_eq_some_iff.mp (List.head?_map.symm.trans hc)
      rw [isBlank_toLower, hrest d hd]

/-- The fields of a lowered text are those of the text, lowered. -/
theorem fields_lowered (text : List Char) : fields (lowered text) = (fields text).map lowered :=
  (separated_fields text).lowered.fields_eq

end ColorWords.Text
