import ColorWords.Proofs.Color.Functional
import ColorWords.Proofs.Decimal.Spelling

/-!
# The functional notation

A text in functional notation is read exactly if it is the name of a function, three literals in
parentheses, and possibly a slash and one more literal, with white space where it may stand and
letters in any case. Any other text is rejected for the first check that it fails: those of the
name and the two parentheses come first, then those of the coordinates from left to right, then
that of their number, and last those of alpha.

The reader lowers all letters before it looks at them. So everything is shown of the text as it
stands, and lowering is pushed through each stage.
-/

namespace ColorWords.Color

open Text

/-! ## The grammar -/

/-- The name of the function for plain or polar coordinates. -/
def functionName (isPolar : Bool) : List Char :=
  if isPolar then "oklch".toList else "oklab".toList

/-- After white space, the text begins with the name of the function in any case. -/
def HasName (isPolar : Bool) (text rest : List Char) : Prop :=
  ∃ before name, AllBlank before ∧ lowered name = functionName isPolar ∧
    text = before ++ name ++ rest

/-- After white space, the text begins with an opening parenthesis. -/
def HasOpening (text rest : List Char) : Prop :=
  ∃ gap, AllBlank gap ∧ text = gap ++ '(' :: rest

/-- Before white space, the text ends with a closing parenthesis. -/
def HasClosing (text body : List Char) : Prop :=
  ∃ after, AllBlank after ∧ text = body ++ ')' :: after

/-- The text is a function with the given text between its parentheses. -/
def HasBody (isPolar : Bool) (text body : List Char) : Prop :=
  ∃ rest inside, HasName isPolar text rest ∧ HasOpening rest inside ∧ HasClosing inside body

/-- The coordinates come before the first slash, and alpha after it. -/
inductive SplitsAtSlash : List Char → List Char → Option (List Char) → Prop where
  | absent {body : List Char} (hbody : '/' ∉ body) : SplitsAtSlash body body none
  | present {coordinates alpha : List Char} (hcoordinates : '/' ∉ coordinates) :
      SplitsAtSlash (coordinates ++ '/' :: alpha) coordinates (some alpha)

section Grammar

variable {α : Type} [Scalar α] [Numeral α]

/-- A nonempty text that is recognized as the number. -/
structure IsLiteral (text : List Char) (x : α) : Prop where
  ne_nil : text ≠ []
  read?_eq : Numeral.read? text = some x

/-- Three literals with white space between them and possibly around them. -/
inductive IsTriple : List Char → Triple α → Prop where
  | mk {text x y z : List Char} {r s t : α} (hfields : Separated text [x, y, z])
      (hx : IsLiteral x r) (hy : IsLiteral y s) (hz : IsLiteral z t) : IsTriple text ⟨r, s, t⟩

/-- A literal with white space around it. -/
def IsPadded (text : List Char) (u : α) : Prop :=
  ∃ before literal after, AllBlank before ∧ AllBlank after ∧ IsLiteral literal u ∧
    text = before ++ literal ++ after

/-- Nothing, which stands for full alpha, or a slash and a literal. -/
inductive IsAlphaPart : List Char → α → Prop where
  | absent : IsAlphaPart [] 1.0
  | present {text : List Char} {u : α} (htext : IsPadded text u) : IsAlphaPart ('/' :: text) u

/-- Plain coordinates are the channels of a point. Polar ones are converted to these, and a hue that
is no number counts as none. -/
inductive IsPoint [ColorModel α] : Bool → Triple α → Lab α → Prop where
  | plain (lightness a b : α) : IsPoint false ⟨lightness, a, b⟩ ⟨lightness, a, b⟩
  | polar (lightness chroma : α) {hue : α} (hhue : hue ≤ hue) :
      IsPoint true ⟨lightness, chroma, hue⟩ (ColorModel.ofPolar ⟨lightness, chroma, some hue⟩)
  | noHue (lightness chroma : α) {hue : α} (hhue : ¬ hue ≤ hue) :
      IsPoint true ⟨lightness, chroma, hue⟩ (ColorModel.ofPolar ⟨lightness, chroma, none⟩)

/-- The text is a color in functional notation. -/
inductive IsNotation [ColorModel α] : List Char → Color α → Prop where
  | mk {isPolar : Bool} {before name gap coordinates part after : List Char} {c : Triple α}
      {point : Lab α} {u : α} (hbefore : AllBlank before)
      (hname : lowered name = functionName isPolar) (hgap : AllBlank gap)
      (hcoordinates : IsTriple coordinates c) (hpoint : IsPoint isPolar c point)
      (hpart : IsAlphaPart part u) (hafter : AllBlank after) :
      IsNotation (before ++ name ++ (gap ++ '(' :: (coordinates ++ part ++ ')' :: after)))
        (make point u)

variable (α)

/-- The next coordinate is missing, or it is no literal. -/
inductive FailsAt : List (List Char) → ColorError → Prop where
  | missing : FailsAt [] .missingCoordinate
  | malformed {field : List Char} {rest : List (List Char)}
      (hfield : ¬ ∃ x : α, IsLiteral field x) : FailsAt (field :: rest) .malformedFloat

/-- The cause for which a text is no color, being the first check that fails. -/
inductive FirstFailure (text : List Char) : ColorError → Prop where
  | name (hname : ¬ ∃ isPolar rest, HasName isPolar text rest) : FirstFailure text .unknownFormat
  | opening {isPolar : Bool} {rest : List Char} (hname : HasName isPolar text rest)
      (hopening : ¬ ∃ inside, HasOpening rest inside) : FirstFailure text .noOpeningParenthesis
  | closing {isPolar : Bool} {rest inside : List Char} (hname : HasName isPolar text rest)
      (hopening : HasOpening rest inside) (hclosing : ¬ ∃ body, HasClosing inside body) :
      FirstFailure text .noClosingParenthesis
  | coordinate {isPolar : Bool} {body coordinates : List Char} {alpha? : Option (List Char)}
      {good bad : List (List Char)} {cause : ColorError} (hbody : HasBody isPolar text body)
      (hsplit : SplitsAtSlash body coordinates alpha?)
      (hfields : Separated coordinates (good ++ bad)) (hlength : good.length < 3)
      (hgood : ∀ field ∈ good, ∃ x : α, IsLiteral field x) (hbad : FailsAt α bad cause) :
      FirstFailure text cause
  | count {isPolar : Bool} {body coordinates : List Char} {alpha? : Option (List Char)}
      {good more : List (List Char)} (hbody : HasBody isPolar text body)
      (hsplit : SplitsAtSlash body coordinates alpha?)
      (hfields : Separated coordinates (good ++ more)) (hlength : good.length = 3)
      (hgood : ∀ field ∈ good, ∃ x : α, IsLiteral field x) (hmore : more ≠ []) :
      FirstFailure text .tooManyCoordinates
  | noAlpha {isPolar : Bool} {body coordinates alpha : List Char} {c : Triple α}
      (hbody : HasBody isPolar text body) (hsplit : SplitsAtSlash body coordinates (some alpha))
      (hcoordinates : IsTriple coordinates c) (hblank : AllBlank alpha) :
      FirstFailure text .missingCoordinate
  | alpha {isPolar : Bool} {body coordinates alpha : List Char} {c : Triple α}
      (hbody : HasBody isPolar text body) (hsplit : SplitsAtSlash body coordinates (some alpha))
      (hcoordinates : IsTriple coordinates c) (hblank : ¬ AllBlank alpha)
      (halpha : ¬ ∃ u : α, IsPadded alpha u) : FirstFailure text .malformedFloat

end Grammar

/-! ## The name and the parentheses -/

/-- A text begins with a word exactly if it is the word and the rest. -/
theorem dropWord?_eq_some_iff (word text rest : List Char) :
    dropWord? word text = some rest ↔ text = word ++ rest := by
  induction word generalizing text with
  | nil => simp [dropWord?]
  | cons c word ih =>
    cases text with
    | nil => simp [dropWord?]
    | cons d text =>
      by_cases hcd : c = d
      · subst hcd
        simp [dropWord?, ih]
      · simp [dropWord?, hcd, Ne.symm hcd]

/-- The name of a function is read exactly where it stands. -/
theorem readFunction?_eq_some_iff (isPolar : Bool) (text rest : List Char) :
    readFunction? text = some (isPolar, rest) ↔ text = functionName isPolar ++ rest := by
  unfold readFunction?
  cases hplain : dropWord? "oklab".toList text with
  | some other =>
    rw [dropWord?_eq_some_iff] at hplain
    subst hplain
    cases isPolar
    · simp [functionName, eq_comm]
    · simp [functionName]
  | none =>
    have hnot (x : List Char) : text ≠ "oklab".toList ++ x := fun htext => by
      rw [(dropWord?_eq_some_iff _ _ _).mpr htext] at hplain
      cases hplain
    cases isPolar
    · simpa [functionName] using hnot rest
    · rw [Option.map_eq_some_iff]
      simp [dropWord?_eq_some_iff, functionName]

variable {isPolar : Bool} {text rest inside body coordinates : List Char}
  {alpha? : Option (List Char)}

/-- The letters of a name are not trimmed. -/
theorem HasName.lowered_trim (h : HasName isPolar text rest) :
    lowered (trim text) = functionName isPolar ++ lowered (trimEnd rest) := by
  obtain ⟨before, name, hbefore, hname, rfl⟩ := h
  have hblank : AllBlank (lowered before) := (allBlank_lowered_iff before).mpr hbefore
  rw [← trim_lowered, lowered_append, lowered_append, hname, trim_eq_trimEnd, List.append_assoc,
    trimStart_append hblank, ← trimEnd_lowered]
  cases isPolar
  · exact @trimEnd_append_cons 'b' (by decide) "okla".toList (lowered rest)
  · exact @trimEnd_append_cons 'h' (by decide) "oklc".toList (lowered rest)

/-- A name that is found in the lowered text is there. -/
theorem hasName_of_readFunction? {rest : List Char}
    (h : readFunction? (lowered (trim text)) = some (isPolar, rest)) :
    ∃ rest, HasName isPolar text rest := by
  rw [readFunction?_eq_some_iff] at h
  obtain ⟨name, tail, htrim, hname, -⟩ := List.map_eq_append_iff.mp h
  obtain ⟨before, after, hbefore, -, htext⟩ := exists_eq_append_trim text
  exact ⟨tail ++ after, before, name, hbefore, hname, by rw [htext, htrim]; simp⟩

/-- Behind white space, the opening parenthesis is found. -/
theorem HasOpening.trimStart_lowered (h : HasOpening rest inside) :
    trimStart (lowered (trimEnd rest)) = '(' :: lowered (trimEnd inside) := by
  obtain ⟨gap, hgap, rfl⟩ := h
  have hblank : AllBlank (lowered gap) := (allBlank_lowered_iff gap).mpr hgap
  rw [trimEnd_append_cons (by decide), lowered_append, trimStart_append hblank]
  exact trimStart_cons (by decide) _

/-- An opening parenthesis that is found in the lowered text is there. -/
theorem hasOpening_of_trimStart {tail : List Char}
    (h : trimStart (lowered (trimEnd rest)) = '(' :: tail) : ∃ inside, HasOpening rest inside := by
  rw [Text.trimStart_lowered] at h
  obtain ⟨c, inside, hstart, hc, -⟩ := List.map_eq_cons_iff.mp h
  obtain rfl : c = '(' := (toLower_eq_iff (by decide) c).mp hc
  obtain ⟨gap, hgap, hrest⟩ := exists_eq_append_trimStart (trimEnd rest)
  obtain ⟨after, -, hend⟩ := exists_eq_trimEnd_append rest
  exact ⟨inside ++ after, gap, hgap, by rw [hend, hrest, hstart]; simp⟩

/-- Before white space, the closing parenthesis is last. -/
theorem HasClosing.lowered_trimEnd (h : HasClosing inside body) :
    lowered (trimEnd inside) = lowered body ++ [')'] := by
  obtain ⟨after, hafter, rfl⟩ := h
  have hnil : trimEnd after = [] := by
    rw [← List.nil_append after, trimEnd_append hafter]
    rfl
  rw [trimEnd_append_cons (by decide), hnil, lowered_append]
  rfl

/-- A closing parenthesis that is last in the lowered text is there. -/
theorem hasClosing_of_getLast? (h : (lowered (trimEnd inside)).getLast? = some ')') :
    ∃ body, HasClosing inside body := by
  obtain ⟨start, hstart⟩ := List.getLast?_eq_some_iff.mp h
  obtain ⟨body, last, hend, -, hlast⟩ := List.map_eq_append_iff.mp hstart
  obtain ⟨c, others, rfl, hc, hothers⟩ := List.map_eq_cons_iff.mp hlast
  obtain rfl := List.map_eq_nil_iff.mp hothers
  obtain rfl : c = ')' := (toLower_eq_iff (by decide) c).mp hc
  obtain ⟨after, hafter, htext⟩ := exists_eq_trimEnd_append inside
  exact ⟨body, after, hafter, by rw [htext, hend]; simp⟩

/-- What stands between the parentheses is read, in small letters. -/
theorem readBody_of_hasClosing (hopening : HasOpening rest inside)
    (hclosing : HasClosing inside body) :
    readBody (lowered (trimEnd rest)) = .ok (lowered body) := by
  rw [readBody, hopening.trimStart_lowered]
  simp only [hclosing.lowered_trimEnd, List.getLast?_concat, if_true, List.dropLast_concat]

/-- A missing opening parenthesis is reported. -/
theorem readBody_of_not_hasOpening (h : ¬ ∃ inside, HasOpening rest inside) :
    readBody (lowered (trimEnd rest)) = .error .noOpeningParenthesis := by
  unfold readBody
  split
  · next htail => exact absurd (hasOpening_of_trimStart htail) h
  · rfl

/-- A missing closing parenthesis is reported. -/
theorem readBody_of_not_hasClosing (hopening : HasOpening rest inside)
    (h : ¬ ∃ body, HasClosing inside body) :
    readBody (lowered (trimEnd rest)) = .error .noClosingParenthesis := by
  rw [readBody, hopening.trimStart_lowered]
  exact if_neg fun hlast => h (hasClosing_of_getLast? hlast)

/-! ## The slash -/

/-- A text is split at its first slash, if it has one. -/
theorem exists_splitsAtSlash (body : List Char) :
    ∃ coordinates alpha?, SplitsAtSlash body coordinates alpha? := by
  by_cases hslash : '/' ∈ body
  · obtain ⟨coordinates, alpha, rfl, hcoordinates⟩ := List.eq_append_cons_of_mem hslash
    exact ⟨coordinates, some alpha, .present hcoordinates⟩
  · exact ⟨body, none, .absent hslash⟩

/-- The lowered text is split at the same slash. -/
theorem SplitsAtSlash.splitOnce?_lowered (h : SplitsAtSlash body coordinates alpha?) :
    (match splitOnce? (· == '/') (lowered body) with
      | some (body, alpha) => (body, some alpha)
      | none => (lowered body, none)) = (lowered coordinates, alpha?.map lowered) := by
  have hnoSlash {part : List Char} (hpart : '/' ∉ part) : ∀ c ∈ lowered part, (c == '/') = false :=
    fun c hc => beq_false_of_ne fun heq => hpart ((mem_lowered_iff (by decide) part).mp (heq ▸ hc))
  cases h with
  | absent hbody =>
    rw [splitOnce?_eq_none (hnoSlash hbody)]
    rfl
  | @present coordinates alpha hcoordinates =>
    have hlower : lowered (coordinates ++ '/' :: alpha) =
        lowered coordinates ++ '/' :: lowered alpha := by
      rw [lowered_append]
      rfl
    rw [hlower, splitOnce?_append_cons (hnoSlash hcoordinates) (by decide)]
    rfl

/-! ## Numbers -/

section Numbers

variable {α : Type} [Numeral α]

/-- A literal is read as its number. -/
theorem IsLiteral.readNumber_eq {field : List Char} {x : α} (h : IsLiteral field x) :
    readNumber field = .ok x := by
  simp [readNumber, h.read?_eq]

/-- A nonempty text is reported if it is no literal. -/
theorem readNumber_of_not_isLiteral {field : List Char} (hne : field ≠ [])
    (h : ¬ ∃ x : α, IsLiteral field x) :
    (readNumber field : Except ColorError α) = .error .malformedFloat := by
  unfold readNumber
  split
  · next x hx => exact absurd ⟨x, hne, hx⟩ h
  · rfl

/-- The text of a literal with white space around it is read as its number. -/
theorem IsPadded.readAlpha_eq [Scalar α] [PlainNumeral α] {text : List Char} {u : α}
    (h : IsPadded text u) : readAlpha (some text) = .ok u := by
  obtain ⟨before, literal, after, hbefore, hafter, hliteral, rfl⟩ := h
  have hdark : HasNoBlank literal := fun c hc => by
    by_contra hblank
    exact PlainNumeral.avoids_blank (eq_true_of_ne_false hblank) literal u hliteral.read?_eq hc
  have htrim : trim (before ++ literal ++ after) = literal := by
    rw [trim_append hbefore hafter, trim_of_hasNoBlank hdark]
  simp only [readAlpha, htrim, List.isEmpty_iff, hliteral.ne_nil, if_false, hliteral.readNumber_eq]

/-- White space alone is reported instead of alpha. -/
theorem readAlpha_of_allBlank [Scalar α] {text : List Char} (h : AllBlank text) :
    (readAlpha (some text) : Except ColorError α) = .error .missingCoordinate := by
  simp [readAlpha, (trim_eq_nil_iff text).mpr h]

/-- Anything else but a literal is reported instead of alpha. -/
theorem readAlpha_of_not_isPadded [Scalar α] {text : List Char} (hblank : ¬ AllBlank text)
    (h : ¬ ∃ u : α, IsPadded text u) :
    (readAlpha (some text) : Except ColorError α) = .error .malformedFloat := by
  have hne : trim text ≠ [] := fun hnil => hblank ((trim_eq_nil_iff text).mp hnil)
  have hliteral : ¬ ∃ u : α, IsLiteral (trim text) u := by
    rintro ⟨u, hu⟩
    obtain ⟨before, after, hbefore, hafter, htext⟩ := exists_eq_append_trim text
    exact h ⟨u, before, trim text, after, hbefore, hafter, hu, htext⟩
  simp [readAlpha, hne, readNumber_of_not_isLiteral hne hliteral]

/-- Three literals are read as coordinates. -/
theorem IsTriple.readCoordinates_eq {c : Triple α} (h : IsTriple coordinates c) :
    readCoordinates coordinates = .ok c := by
  obtain ⟨hfields, hx, hy, hz⟩ := h
  exact readCoordinates_of_fields hfields.fields_eq hx.read?_eq hy.read?_eq hz.read?_eq

/-- The first coordinate that fails is reported. -/
theorem readCoordinates_of_failsAt {good bad : List (List Char)} {cause : ColorError}
    (hfields : Separated coordinates (good ++ bad)) (hlength : good.length < 3)
    (hgood : ∀ field ∈ good, ∃ x : α, IsLiteral field x) (hbad : FailsAt α bad cause) :
    (readCoordinates coordinates : Except ColorError (Triple α)) = .error cause := by
  have hfail : (readCoordinate bad[0]? : Except ColorError α) = .error cause := by
    cases hbad with
    | missing => rfl
    | @malformed field rest hfield =>
      exact readNumber_of_not_isLiteral
        (hfields.ne_nil field (List.mem_append_right _ List.mem_cons_self)) hfield
  have hread {field : List Char} {x : α} (h : IsLiteral field x) :
      readCoordinate (some field) = .ok x := h.readNumber_eq
  unfold readCoordinates
  rw [hfields.fields_eq]
  match good, hlength with
  | [], _ => simp [hfail, bind, Except.bind]
  | [first], _ =>
    obtain ⟨x, hx⟩ := hgood first List.mem_cons_self
    simp [hread hx, hfail, bind, Except.bind]
  | [first, second], _ =>
    simp only [List.forall_mem_cons] at hgood
    obtain ⟨⟨x, hx⟩, ⟨y, hy⟩, -⟩ := hgood
    simp [hread hx, hread hy, hfail, bind, Except.bind]

/-- More than three coordinates are reported. -/
theorem readCoordinates_of_more {good more : List (List Char)}
    (hfields : Separated coordinates (good ++ more)) (hlength : good.length = 3)
    (hgood : ∀ field ∈ good, ∃ x : α, IsLiteral field x) (hmore : more ≠ []) :
    (readCoordinates coordinates : Except ColorError (Triple α)) = .error .tooManyCoordinates := by
  have hread {field : List Char} {x : α} (h : IsLiteral field x) :
      readCoordinate (some field) = .ok x := h.readNumber_eq
  match good, hlength with
  | [first, second, third], _ =>
    simp only [List.forall_mem_cons] at hgood
    obtain ⟨⟨x, hx⟩, ⟨y, hy⟩, ⟨z, hz⟩, -⟩ := hgood
    have hcount : 3 < ([first, second, third] ++ more).length := by
      have hpos := List.length_pos_iff.mpr hmore
      simp only [List.length_append, List.length_cons, List.length_nil]
      omega
    unfold readCoordinates
    simp only [hfields.fields_eq, hcount, if_true]
    simp [hread hx, hread hy, hread hz, bind, Except.bind]

/-- Coordinates are three literals, or one of the first three is missing or no literal, or there
are more than three. -/
theorem isTriple_or_fails (α : Type) [Numeral α] (coordinates : List Char) :
    (∃ c : Triple α, IsTriple coordinates c) ∨
      (∃ good bad cause, Separated coordinates (good ++ bad) ∧ good.length < 3 ∧
        (∀ field ∈ good, ∃ x : α, IsLiteral field x) ∧ FailsAt α bad cause) ∨
      ∃ good more, Separated coordinates (good ++ more) ∧ good.length = 3 ∧
        (∀ field ∈ good, ∃ x : α, IsLiteral field x) ∧ more ≠ [] := by
  have hfields := separated_fields coordinates
  -- The longest start of the fields that are literals, up to three of them.
  obtain ⟨good, rest, hsplit, hlength, hgood, hstop⟩ :
      ∃ good rest, fields coordinates = good ++ rest ∧ good.length ≤ 3 ∧
        (∀ field ∈ good, ∃ x : α, IsLiteral field x) ∧
        (good.length < 3 → ∃ cause, FailsAt α rest cause) := by
    have hgrow (n : ℕ) : ∃ good rest, fields coordinates = good ++ rest ∧ good.length ≤ n ∧
        (∀ field ∈ good, ∃ x : α, IsLiteral field x) ∧
        (good.length < n → ∃ cause, FailsAt α rest cause) := by
      induction n with
      | zero => exact ⟨[], fields coordinates, rfl, le_rfl, by simp, fun h => absurd h (by simp)⟩
      | succ n ih =>
        obtain ⟨good, rest, hsplit, hlength, hgood, hstop⟩ := ih
        rcases hlength.lt_or_eq with hless | hfull
        · exact ⟨good, rest, hsplit, by omega, hgood, fun _ => hstop hless⟩
        · cases rest with
          | nil => exact ⟨good, [], hsplit, by omega, hgood, fun _ => ⟨_, .missing⟩⟩
          | cons field rest =>
            by_cases hfield : ∃ x : α, IsLiteral field x
            · refine ⟨good ++ [field], rest, by simp [hsplit], by simp [hfull], ?_, ?_⟩
              · exact List.forall_mem_append.mpr ⟨hgood, List.forall_mem_singleton.mpr hfield⟩
              · simp [hfull]
            · exact ⟨good, _, hsplit, by omega, hgood, fun _ => ⟨_, .malformed hfield⟩⟩
    exact hgrow 3
  rw [hsplit] at hfields
  rcases hlength.lt_or_eq with hless | hfull
  · obtain ⟨cause, hbad⟩ := hstop hless
    exact Or.inr (Or.inl ⟨good, rest, cause, hfields, hless, hgood, hbad⟩)
  · cases rest with
    | nil =>
      match good, hfull with
      | [first, second, third], _ =>
        simp only [List.forall_mem_cons] at hgood
        obtain ⟨⟨x, hx⟩, ⟨y, hy⟩, ⟨z, hz⟩, -⟩ := hgood
        exact Or.inl ⟨⟨x, y, z⟩, .mk (by simpa using hfields) hx hy hz⟩
    | cons extra more => exact Or.inr (Or.inr ⟨good, _, hfields, hfull, hgood, by simp⟩)

/-- The case of letters does not matter for a number. -/
theorem readNumber_lowered [PlainNumeral α] (field : List Char) :
    (readNumber (lowered field) : Except ColorError α) = readNumber field := by
  rw [readNumber, PlainNumeral.read?_lowered, readNumber]

/-- The case of letters does not matter for coordinates. -/
theorem readCoordinates_lowered [PlainNumeral α] (coordinates : List Char) :
    (readCoordinates (lowered coordinates) : Except ColorError (Triple α)) =
      readCoordinates coordinates := by
  have hread (field? : Option (List Char)) :
      (readCoordinate (field?.map lowered) : Except ColorError α) = readCoordinate field? := by
    cases field? with
    | none => rfl
    | some field => exact readNumber_lowered field
  simp only [readCoordinates, fields_lowered, List.getElem?_map, hread, List.length_map]

/-- The case of letters does not matter for alpha. -/
theorem readAlpha_lowered [Scalar α] [PlainNumeral α] (alpha? : Option (List Char)) :
    (readAlpha (alpha?.map lowered) : Except ColorError α) = readAlpha alpha? := by
  cases alpha? with
  | none => rfl
  | some alpha =>
    have hempty : (lowered (trim alpha)).isEmpty = (trim alpha).isEmpty := List.isEmpty_map
    simp only [Option.map_some, readAlpha, trim_lowered, hempty, readNumber_lowered]

end Numbers

/-! ## Reading -/

section Reading

variable {α : Type} [Scalar α] [Numeral α] [ColorModel α]

omit [Numeral α] in
/-- The point of coordinates is the one that the reader makes of them. -/
theorem isPoint_iff {c : Triple α} {point : Lab α} :
    IsPoint isPolar c point ↔ point = labOfCoordinates isPolar c := by
  have hnumber (x : α) : Scalar.isNumber x = true ↔ x ≤ x := decide_eq_true_iff
  obtain ⟨x, y, z⟩ := c
  constructor
  · rintro (_ | ⟨_, _, hhue⟩ | ⟨_, _, hhue⟩)
    · rfl
    · simp [labOfCoordinates, (hnumber z).mpr hhue]
    · simp [labOfCoordinates, (hnumber z).not.mpr hhue]
  · rintro rfl
    cases isPolar
    · exact .plain x y z
    · by_cases hhue : z ≤ z
      · simpa [labOfCoordinates, (hnumber z).mpr hhue] using IsPoint.polar x y hhue
      · simpa [labOfCoordinates, (hnumber z).not.mpr hhue] using IsPoint.noHue x y hhue

/-- A text that does not begin with a hash sign is read as a function. -/
theorem read_eq_readFunctional {text : List Char} (h : (trim text).head? ≠ some '#') :
    (read text : Except ColorError (Color α)) = readFunctional (lowered (trim text)) := by
  unfold read
  split
  · next digits hdigits =>
    obtain ⟨c, rest, htrim, hc, -⟩ := List.map_eq_cons_iff.mp hdigits
    obtain rfl : c = '#' := (toLower_eq_iff (by decide) c).mp hc
    exact absurd (by rw [htrim]; rfl) h
  · rfl

/-- A text that begins with a name does not begin with a hash sign. -/
theorem HasName.head?_trim_ne (h : HasName isPolar text rest) : (trim text).head? ≠ some '#' := by
  intro hhead
  obtain ⟨tail, htail⟩ := List.head?_eq_some_iff.mp hhead
  have hlower := h.lowered_trim
  rw [htail] at hlower
  cases isPolar <;> exact absurd (List.cons.inj hlower).1 (by decide)

/-- After its name, a function is read from what stands between its parentheses. -/
theorem HasName.read_eq (h : HasName isPolar text rest) :
    (read text : Except ColorError (Color α)) = (do
      let body ← readBody (lowered (trimEnd rest))
      let (body, alpha) :=
        match splitOnce? (· == '/') body with
        | some (body, alpha) => (body, some alpha)
        | none => (body, none)
      let coordinates ← readCoordinates body
      let alpha ← readAlpha alpha
      return make (labOfCoordinates isPolar coordinates) alpha) := by
  have hfunction := (readFunction?_eq_some_iff isPolar _ _).mpr h.lowered_trim
  rw [read_eq_readFunctional h.head?_trim_ne]
  unfold readFunctional
  generalize readFunction? (lowered (trim text)) = function at hfunction
  subst hfunction
  rfl

/-- Neither white space around a text nor the case of its letters matters. -/
theorem read_eq_of_lowered_eq {text other before after : List Char} (hbefore : AllBlank before)
    (hafter : AllBlank after) (h : lowered other = lowered text) :
    (read (before ++ other ++ after) : Except ColorError (Color α)) = read text := by
  have htrim : lowered (trim (before ++ other ++ after)) = lowered (trim text) := by
    rw [trim_append hbefore hafter, ← trim_lowered, h, trim_lowered]
  unfold lowered at htrim
  rw [read, htrim, read]

/-- Three literals and a valid end make up a color. -/
theorem HasBody.isNotation (hbody : HasBody isPolar text (coordinates ++ body)) {c : Triple α}
    {point : Lab α} {u : α} (hcoordinates : IsTriple coordinates c)
    (hpoint : IsPoint isPolar c point) (hpart : IsAlphaPart body u) :
    IsNotation text (make point u) := by
  obtain ⟨rest, inside, hbegin, ⟨gap, hgap, rfl⟩, after, hafter, rfl⟩ := hbody
  obtain ⟨before, name, hbefore, hname, rfl⟩ := hbegin
  exact .mk hbefore hname hgap hcoordinates hpoint hpart hafter

/-- Every text is a color in functional notation or fails some check first. -/
theorem isNotation_or_firstFailure (α : Type) [Scalar α] [Numeral α] [ColorModel α]
    (text : List Char) :
    (∃ c : Color α, IsNotation text c) ∨ ∃ cause, FirstFailure α text cause := by
  by_cases hname : ∃ isPolar rest, HasName isPolar text rest
  · obtain ⟨isPolar, rest, hname⟩ := hname
    by_cases hopening : ∃ inside, HasOpening rest inside
    · obtain ⟨inside, hopening⟩ := hopening
      by_cases hclosing : ∃ body, HasClosing inside body
      · obtain ⟨body, hclosing⟩ := hclosing
        have hbody : HasBody isPolar text body := ⟨rest, inside, hname, hopening, hclosing⟩
        obtain ⟨coordinates, alpha?, hsplit⟩ := exists_splitsAtSlash body
        rcases isTriple_or_fails α coordinates with ⟨c, hc⟩ |
          ⟨good, bad, cause, hfields, hlength, hgood, hbad⟩ |
          ⟨good, more, hfields, hlength, hgood, hmore⟩
        · cases hsplit with
          | absent =>
            rw [← List.append_nil body] at hbody
            exact Or.inl ⟨_, hbody.isNotation hc (isPoint_iff.mpr rfl) .absent⟩
          | @present coordinates alpha hslash =>
            by_cases hblank : AllBlank alpha
            · exact Or.inr ⟨_, .noAlpha hbody (.present hslash) hc hblank⟩
            · by_cases halpha : ∃ u : α, IsPadded alpha u
              · obtain ⟨u, hu⟩ := halpha
                exact Or.inl ⟨_, hbody.isNotation hc (isPoint_iff.mpr rfl) (.present hu)⟩
              · exact Or.inr ⟨_, .alpha hbody (.present hslash) hc hblank halpha⟩
        · exact Or.inr ⟨cause, .coordinate hbody hsplit hfields hlength hgood hbad⟩
        · exact Or.inr ⟨_, .count hbody hsplit hfields hlength hgood hmore⟩
      · exact Or.inr ⟨_, .closing hname hopening hclosing⟩
    · exact Or.inr ⟨_, .opening hname hopening⟩
  · exact Or.inr ⟨_, .name hname⟩

variable [PlainNumeral α]

/-- A function is read from its coordinates and alpha. -/
theorem HasBody.read_eq (hbody : HasBody isPolar text body)
    (hsplit : SplitsAtSlash body coordinates alpha?) :
    (read text : Except ColorError (Color α)) = (do
      let coordinates ← readCoordinates coordinates
      let alpha ← readAlpha alpha?
      return make (labOfCoordinates isPolar coordinates) alpha) := by
  obtain ⟨rest, inside, hname, hopening, hclosing⟩ := hbody
  have hparts := hsplit.splitOnce?_lowered
  rw [hname.read_eq, readBody_of_hasClosing hopening hclosing]
  simp only [bind, Except.bind]
  rw [hparts]
  simp only [readCoordinates_lowered, readAlpha_lowered]

/-- A color in functional notation is read as this color. -/
theorem IsNotation.read_eq {c : Color α} (h : IsNotation text c) : read text = .ok c := by
  cases h with
  | @mk isPolar before name gap coordinates part after c point u hbefore hname hgap hcoordinates
      hpoint hpart hafter =>
    have hbody : HasBody isPolar
        (before ++ name ++ (gap ++ '(' :: (coordinates ++ part ++ ')' :: after)))
        (coordinates ++ part) :=
      ⟨_, _, ⟨before, name, hbefore, hname, rfl⟩, ⟨gap, hgap, rfl⟩, after, hafter, rfl⟩
    have hslash : '/' ∉ coordinates := by
      obtain ⟨hfields, hx, hy, hz⟩ := hcoordinates
      rw [hfields.mem_iff (by decide)]
      have havoid {field : List Char} {x : α} (h : IsLiteral field x) : '/' ∉ field :=
        PlainNumeral.avoids_slash _ _ h.read?_eq
      simp [havoid hx, havoid hy, havoid hz]
    have hsplit : ∃ alpha?, SplitsAtSlash (coordinates ++ part) coordinates alpha? ∧
        readAlpha alpha? = .ok u := by
      cases hpart with
      | absent => exact ⟨none, by rw [List.append_nil]; exact .absent hslash, rfl⟩
      | present htext => exact ⟨_, .present hslash, htext.readAlpha_eq⟩
    obtain ⟨alpha?, hsplit, halpha⟩ := hsplit
    rw [hbody.read_eq hsplit, hcoordinates.readCoordinates_eq, halpha, isPoint_iff.mp hpoint]
    rfl

/-- Without a hash sign in front, the first failure is reported. -/
theorem FirstFailure.read_eq (hhash : (trim text).head? ≠ some '#') {cause : ColorError}
    (h : FirstFailure α text cause) : (read text : Except ColorError (Color α)) = .error cause := by
  cases h with
  | name hname =>
    have hnone : readFunction? (lowered (trim text)) = none := by
      rw [Option.eq_none_iff_forall_ne_some]
      rintro ⟨isPolar, rest⟩ hsome
      exact hname ⟨isPolar, hasName_of_readFunction? hsome⟩
    rw [read_eq_readFunctional hhash, readFunctional, hnone]
  | opening hname hopening =>
    rw [hname.read_eq, readBody_of_not_hasOpening hopening]
    rfl
  | closing hname hopening hclosing =>
    rw [hname.read_eq, readBody_of_not_hasClosing hopening hclosing]
    rfl
  | coordinate hbody hsplit hfields hlength hgood hbad =>
    rw [hbody.read_eq hsplit, readCoordinates_of_failsAt hfields hlength hgood hbad]
    rfl
  | count hbody hsplit hfields hlength hgood hmore =>
    rw [hbody.read_eq hsplit, readCoordinates_of_more hfields hlength hgood hmore]
    rfl
  | noAlpha hbody hsplit hcoordinates hblank =>
    rw [hbody.read_eq hsplit, hcoordinates.readCoordinates_eq, readAlpha_of_allBlank hblank]
    rfl
  | alpha hbody hsplit hcoordinates hblank halpha =>
    rw [hbody.read_eq hsplit, hcoordinates.readCoordinates_eq,
      readAlpha_of_not_isPadded hblank halpha]
    rfl

/-- A text that does not begin with a hash sign, apart from white space, is read as a color exactly
if it is this color in functional notation, and it is rejected for exactly the first check that it
fails, of which there is one otherwise. White space around a text and the case of its letters
matter for neither. -/
theorem read_of_not_hash (hhash : (trim text).head? ≠ some '#') :
    (∀ c : Color α, read text = .ok c ↔ IsNotation text c) ∧
    (∀ cause, (read text : Except ColorError (Color α)) = .error cause ↔
      FirstFailure α text cause) ∧
    ∀ before other after, AllBlank before → AllBlank after → lowered other = lowered text →
      (read (before ++ other ++ after) : Except ColorError (Color α)) = read text := by
  refine ⟨fun c => ⟨fun hread => ?_, IsNotation.read_eq⟩,
    fun cause => ⟨fun hread => ?_, FirstFailure.read_eq hhash⟩,
    fun before other after hbefore hafter => read_eq_of_lowered_eq hbefore hafter⟩
  · rcases isNotation_or_firstFailure α text with ⟨d, hd⟩ | ⟨cause, hcause⟩
    · exact Except.ok.inj (hd.read_eq.symm.trans hread) ▸ hd
    · exact absurd ((hcause.read_eq hhash).symm.trans hread) (by simp)
  · rcases isNotation_or_firstFailure α text with ⟨d, hd⟩ | ⟨other, hother⟩
    · exact absurd (hd.read_eq.symm.trans hread) (by simp)
    · exact Except.error.inj ((hother.read_eq hhash).symm.trans hread) ▸ hother

/-- A polar color is read in mixed case and with generous white space. A second coordinate that is
no number is reported before a missing alpha. -/
theorem read_of_not_hash_mixed_case :
    (read " OkLCH\t( 0.5 1E-1 30/ 50e-2 )\n".toList : Except ColorError (Color Float)) =
        .ok (make (ColorModel.ofPolar ⟨0.5, 0.1, some 30.0⟩) 0.5) ∧
      (read "oklab(1 x/ )".toList : Except ColorError (Color Float)) = .error .malformedFloat := by
  have hseparated {text : List Char} {pieces : List (List Char)} (h : fields text = pieces) :
      Separated text pieces := h ▸ separated_fields text
  constructor
  · have hfields : Separated " 0.5 1E-1 30".toList ["0.5".toList, "1E-1".toList, "30".toList] :=
      hseparated (by decide)
    have hcoordinates : IsTriple " 0.5 1E-1 30".toList (⟨0.5, 0.1, 30.0⟩ : Triple Float) :=
      .mk hfields ⟨by decide, by decide +kernel⟩ ⟨by decide, by decide +kernel⟩
        ⟨by decide, by decide +kernel⟩
    have hpart : IsAlphaPart "/ 50e-2 ".toList (0.5 : Float) :=
      .present ⟨[' '], "50e-2".toList, [' '], by decide, by decide, ⟨by decide, by decide +kernel⟩,
        rfl⟩
    have hbody : HasBody true " OkLCH\t( 0.5 1E-1 30/ 50e-2 )\n".toList
        (" 0.5 1E-1 30".toList ++ "/ 50e-2 ".toList) :=
      ⟨_, _, ⟨[' '], "OkLCH".toList, by decide, by decide, rfl⟩, ⟨['\t'], by decide, rfl⟩, ['\n'],
        by decide, rfl⟩
    have hpoint := IsPoint.polar (0.5 : Float) 0.1 (by decide +kernel : (30.0 : Float) ≤ 30.0)
    exact ((read_of_not_hash (by decide)).1 _).mpr (hbody.isNotation hcoordinates hpoint hpart)
  · have hfields : Separated "1 x".toList (["1".toList] ++ ["x".toList]) := hseparated (by decide)
    have hbody : HasBody false "oklab(1 x/ )".toList ("1 x".toList ++ '/' :: [' ']) :=
      ⟨_, _, ⟨[], "oklab".toList, by decide, by decide, rfl⟩, ⟨[], by decide, rfl⟩, [],
        by decide, rfl⟩
    have hone : ∀ field ∈ ["1".toList], ∃ x : Float, IsLiteral field x :=
      List.forall_mem_singleton.mpr ⟨1.0, by decide, by decide +kernel⟩
    have hnone : (Numeral.read? "x".toList : Option Float) = none := by decide +kernel
    have hbad : FailsAt Float ["x".toList] .malformedFloat :=
      .malformed fun ⟨x, hx⟩ => Option.some_ne_none x (hx.read?_eq.symm.trans hnone)
    exact ((read_of_not_hash (by decide)).2.1 _).mpr
      (.coordinate hbody (.present (by decide)) hfields (by decide) hone hbad)

end Reading

end ColorWords.Color
