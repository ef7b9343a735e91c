import ColorWords.Color.Printer
import ColorWords.Color.Reader
import ColorWords.Proofs.Text.Cuts

/-!
# Reading functional notation

Functional notation is put together from fields, which are nonempty and have neither white space
nor a slash nor capital letters. Its reader takes it apart again into the same fields, so a color
is read exactly as its fields are read as numbers.
-/

namespace ColorWords.Color

open Text

/-! ## Fields -/

/-- A text that stands for one number: it is nonempty and has neither white space nor a slash nor
a capital letter. -/
structure IsField (text : List Char) : Prop where
  ne_nil : text ≠ []
  hasNoBlank : HasNoBlank text
  no_slash : '/' ∉ text
  toLower_eq : ∀ c ∈ text, c.toLower = c

namespace IsField

variable {x : List Char}

/-- A field is the only run of characters that are not blank. -/
theorem fields_eq (hx : IsField x) : fields x = [x] :=
  runs_eq_singleton hx.ne_nil fun c hc => by simp [hx.hasNoBlank c hc]

/-- A field and a blank come before the fields of the rest. -/
theorem fields_append_cons (hx : IsField x) (rest : List Char) :
    fields (x ++ ' ' :: rest) = x :: fields rest := by
  rw [fields, runs_append_cons (by decide), ← fields, hx.fields_eq]
  rfl

/-- White space before a field is trimmed. -/
theorem trim_cons (hx : IsField x) : trim (' ' :: x) = x := by
  rw [trim_cons_of_isBlank (by decide), trim_of_hasNoBlank hx.hasNoBlank]

end IsField

/-! ## The notation -/

/-- Three coordinates with a blank between them. -/
def coordinateText (x y z : List Char) : List Char := x ++ ' ' :: (y ++ ' ' :: z)

/-- The notation with the given coordinates and what follows them between the parentheses. -/
def functionalText (x y z after : List Char) : List Char :=
  "oklab(".toList ++ (coordinateText x y z ++ after ++ [')'])

/-- What follows the coordinates if there is alpha. -/
def alphaText (w : List Char) : List Char := ' ' :: '/' :: ' ' :: w

section Reading

variable {x y z w : List Char}

/-- There are three fields in coordinates, and a blank after them adds none. -/
theorem fields_coordinateText (hx : IsField x) (hy : IsField y) (hz : IsField z) :
    fields (coordinateText x y z) = [x, y, z] ∧
      fields (coordinateText x y z ++ [' ']) = [x, y, z] := by
  have hjoin : coordinateText x y z ++ [' '] = x ++ ' ' :: (y ++ ' ' :: (z ++ ' ' :: [])) := by
    simp [coordinateText]
  constructor
  · rw [coordinateText, hx.fields_append_cons, hy.fields_append_cons, hz.fields_eq]
  · rw [hjoin, hx.fields_append_cons, hy.fields_append_cons, hz.fields_append_cons]
    rfl

/-- There is no slash in coordinates. -/
theorem no_slash_coordinateText (hx : IsField x) (hy : IsField y) (hz : IsField z) :
    '/' ∉ coordinateText x y z := by
  simp [coordinateText, hx.no_slash, hy.no_slash, hz.no_slash]

/-- There are no capital letters in coordinates. -/
theorem toLower_coordinateText (hx : IsField x) (hy : IsField y) (hz : IsField z) :
    ∀ c ∈ coordinateText x y z, c.toLower = c := by
  have hblank : ' '.toLower = ' ' := by decide
  simp only [coordinateText, List.forall_mem_append, List.forall_mem_cons]
  exact ⟨hx.toLower_eq, hblank, hy.toLower_eq, hblank, hz.toLower_eq⟩

/-- The notation has no characters but its own and those of its fields. -/
theorem not_mem_functionalText {d : Char} (hd : d ∉ "oklab( /)".toList) (hx : d ∉ x) (hy : d ∉ y)
    (hz : d ∉ z) {after : List Char} (hafter : d ∉ after) : d ∉ functionalText x y z after := by
  have hfixed {text : List Char} (h : text ⊆ "oklab( /)".toList) : d ∉ text :=
    fun hmem => hd (h hmem)
  have hblank : d ≠ ' ' := fun heq => hd (heq ▸ by decide)
  have hcoordinates : d ∉ coordinateText x y z := by simp [coordinateText, hx, hy, hz, hblank]
  exact List.not_mem_append (hfixed (by decide))
    (List.not_mem_append (List.not_mem_append hcoordinates hafter) (hfixed (by decide)))

/-- The same goes for what follows the coordinates. -/
theorem not_mem_alphaText {d : Char} (hd : d ∉ "oklab( /)".toList) (hw : d ∉ w) :
    d ∉ alphaText w := by
  have hblank : d ≠ ' ' := fun heq => hd (heq ▸ by decide)
  have hslash : d ≠ '/' := fun heq => hd (heq ▸ by decide)
  simp [alphaText, hw, hblank, hslash]

/-- The name of the function is read, and its parentheses are taken off. -/
theorem readBody_functionalText (after : List Char) :
    ∃ rest, readFunction? (functionalText x y z after) = some (false, rest) ∧
      readBody rest = .ok (coordinateText x y z ++ after) := by
  refine ⟨'(' :: (coordinateText x y z ++ after ++ [')']), rfl, ?_⟩
  have hlast : (coordinateText x y z ++ after ++ [')']).getLast? = some ')' :=
    List.getLast?_concat
  rw [readBody, trimStart_cons (by decide)]
  simp only [hlast, if_true, List.dropLast_concat]

/-- Neither trimming nor lowering its letters changes the notation. -/
theorem map_toLower_trim_functionalText (hx : IsField x) (hy : IsField y) (hz : IsField z)
    {after : List Char} (hafter : ∀ c ∈ after, c.toLower = c) :
    (trim (functionalText x y z after)).map Char.toLower = functionalText x y z after := by
  have hhead : (functionalText x y z after).head? = some 'o' := rfl
  have hlast : functionalText x y z after =
      "oklab(".toList ++ (coordinateText x y z ++ after) ++ [')'] :=
    (List.append_assoc _ _ _).symm
  rw [trim_of_ends (by decide) (by decide) hhead hlast]
  have hinside : ∀ c ∈ coordinateText x y z ++ after, c.toLower = c :=
    List.forall_mem_append.mpr ⟨toLower_coordinateText hx hy hz, hafter⟩
  have hword : "oklab(".toList.Forall fun c => c.toLower = c := by decide
  have hall : ∀ c ∈ functionalText x y z after, c.toLower = c :=
    List.forall_mem_append.mpr ⟨List.forall_iff_forall_mem.mp hword,
      List.forall_mem_append.mpr ⟨hinside, List.forall_mem_singleton.mpr (by decide)⟩⟩
  exact (List.map_congr_left hall).trans (List.map_id _)

/-- There are no capital letters in what follows the coordinates. -/
theorem toLower_alphaText (hw : IsField w) : ∀ c ∈ alphaText w, c.toLower = c := by
  simp only [alphaText, List.forall_mem_cons]
  exact ⟨by decide, by decide, by decide, hw.toLower_eq⟩

section Numbers

variable {α : Type} [Numeral α] {r s t u : α}

/-- Three fields are read as coordinates if each of them is read as a number. -/
theorem readCoordinates_of_fields {text : List Char} (hfields : fields text = [x, y, z])
    (hr : Numeral.read? x = some r) (hs : Numeral.read? y = some s)
    (ht : Numeral.read? z = some t) : readCoordinates text = .ok (⟨r, s, t⟩ : Triple α) := by
  simp only [readCoordinates, hfields, readCoordinate, readNumber, List.getElem?_cons_zero,
    List.getElem?_cons_succ, hr, hs, ht]
  rfl

variable [Scalar α]

/-- Alpha is read if its field is read as a number. -/
theorem readAlpha_of_field (hw : IsField w) (hu : Numeral.read? w = some u) :
    readAlpha (some (' ' :: w)) = .ok u := by
  simp [readAlpha, hw.trim_cons, hw.ne_nil, readNumber, hu]

variable [ColorModel α]

/-- The notation is read by its function. -/
theorem read_functionalText_eq (hx : IsField x) (hy : IsField y) (hz : IsField z)
    {after : List Char} (hafter : ∀ c ∈ after, c.toLower = c) :
    (read (functionalText x y z after) : Except ColorError (Color α)) =
      readFunctional (functionalText x y z after) := by
  rw [read, map_toLower_trim_functionalText hx hy hz hafter]
  rfl

/-- A color is read from the numbers of its coordinates, with full alpha. -/
theorem read_functionalText (hx : IsField x) (hy : IsField y) (hz : IsField z)
    (hr : Numeral.read? x = some r) (hs : Numeral.read? y = some s)
    (ht : Numeral.read? z = some t) :
    read (functionalText x y z []) = .ok (solid ⟨r, s, t⟩ : Color α) := by
  obtain ⟨rest, hfunction, hbody⟩ := @readBody_functionalText x y z []
  have hsplit : splitOnce? (· == '/') (coordinateText x y z) = none :=
    splitOnce?_eq_none fun c hc =>
      beq_false_of_ne fun heq => no_slash_coordinateText hx hy hz (heq ▸ hc)
  have hcoordinates := readCoordinates_of_fields (fields_coordinateText hx hy hz).1 hr hs ht
  rw [List.append_nil] at hbody
  rw [read_functionalText_eq hx hy hz (by simp), readFunctional]
  simp only [hfunction, hbody, bind, Except.bind, hsplit, hcoordinates, readAlpha]
  rfl

/-- A color is read from the numbers of its coordinates and of alpha. -/
theorem read_functionalText_alpha (hx : IsField x) (hy : IsField y) (hz : IsField z)
    (hw : IsField w) (hr : Numeral.read? x = some r) (hs : Numeral.read? y = some s)
    (ht : Numeral.read? z = some t) (hu : Numeral.read? w = some u) :
    read (functionalText x y z (alphaText w)) = .ok (make ⟨r, s, t⟩ u : Color α) := by
  obtain ⟨rest, hfunction, hbody⟩ := @readBody_functionalText x y z (alphaText w)
  have hjoin : coordinateText x y z ++ alphaText w =
      (coordinateText x y z ++ [' ']) ++ '/' :: ' ' :: w := by simp [alphaText]
  have hsplit : splitOnce? (· == '/') (coordinateText x y z ++ alphaText w) =
      some (coordinateText x y z ++ [' '], ' ' :: w) := by
    rw [hjoin]
    refine splitOnce?_append_cons (fun c hc => beq_false_of_ne fun heq => ?_) (by decide) _
    subst heq
    rcases List.mem_append.mp hc with hc | hc
    · exact no_slash_coordinateText hx hy hz hc
    · exact absurd hc (by decide)
  have hcoordinates := readCoordinates_of_fields (fields_coordinateText hx hy hz).2 hr hs ht
  rw [read_functionalText_eq hx hy hz (toLower_alphaText hw), readFunctional]
  simp only [hfunction, hbody, bind, Except.bind, hsplit, hcoordinates, readAlpha_of_field hw hu]
  rfl

end Numbers

end Reading

end ColorWords.Color
