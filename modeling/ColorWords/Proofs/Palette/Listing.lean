import ColorWords.Palette.Listing
import ColorWords.Proofs.Color.RoundTrip
import ColorWords.Proofs.Palette.Build

/-!
# Writing a palette and reading it back

A listing has one line for each named color and each alias, and every line is read as what it was
written for: names have neither white space nor an equal sign, and the text of a color has no
equal sign and ends in a parenthesis. So the listing of a palette reads as a palette with the same
names and aliases, whose colors are made from the channels as they were written.
-/

namespace ColorWords

open Description Text

/-! ## Lines -/

namespace ListingLine

/-- A word begins with a letter. -/
theorem exists_cons_of_isWord {name : String} (h : IsWord name) :
    ∃ c rest, name.toList = c :: rest ∧ c.isAlpha = true := by
  obtain ⟨c, rest, hchars⟩ := List.exists_cons_of_ne_nil fun hnil =>
    h.1 (String.toList_eq_nil_iff.mp hnil)
  exact ⟨c, rest, hchars, h.2 c (hchars ▸ List.mem_cons_self)⟩

/-- There is no white space in a word. -/
theorem hasNoBlank_of_isWord {name : String} (h : IsWord name) : HasNoBlank name.toList :=
  fun c hc => isBlank_of_isAlpha (h.2 c hc)

/-- There is no equal sign in a word. -/
theorem ne_equals_of_isWord {name : String} (h : IsWord name) :
    ∀ c ∈ name.toList, (c == '=') = false :=
  fun c hc => beq_false_of_ne fun heq => absurd (heq ▸ h.2 c hc) (by decide)

/-- A line that begins with a letter and does not end with white space holds something, and it is
read as it stands. -/
theorem holds_of_ends {line inner : List Char} {first last : Char} (hfirst : first.isAlpha = true)
    (hlast : isBlank last = false) (hhead : line.head? = some first)
    (hline : line = inner ++ [last]) :
    trim line = line ∧ (line.isEmpty || line.head? == some ';') = false := by
  have hne : first ≠ ';' := fun heq => absurd (heq ▸ hfirst) (by decide)
  refine ⟨trim_of_ends (isBlank_of_isAlpha hfirst) hlast hhead hline, ?_⟩
  obtain ⟨rest, rfl⟩ := List.head?_eq_some_iff.mp hhead
  simp [hne]

variable {α : Type} [Scalar α] [Numeral α] [ColorModel α]

/-- A word and the text of a color are read as a named color. -/
theorem read_entry {name : String} (hname : IsWord name) {text inner : List Char}
    (hlast : text = inner ++ [')']) (hequals : '=' ∉ text) {c : Color α}
    (hread : Color.read text = .ok c) (number : ℕ) :
    read number (name.toList ++ ' ' :: text) = .ok (.entry name c) := by
  obtain ⟨first, rest, hchars, hfirst⟩ := exists_cons_of_isWord hname
  have hhead : (name.toList ++ ' ' :: text).head? = some first := by rw [hchars]; rfl
  have hline : name.toList ++ ' ' :: text = (name.toList ++ ' ' :: inner) ++ [')'] := by
    simp [hlast]
  have hnoEquals : ∀ d ∈ name.toList ++ ' ' :: text, (d == '=') = false := by
    rw [List.forall_mem_append, List.forall_mem_cons]
    exact ⟨ne_equals_of_isWord hname, by decide,
      fun d hd => beq_false_of_ne fun heq => hequals (heq ▸ hd)⟩
  have hsplit : splitOnce? isBlank (name.toList ++ ' ' :: text) = some (name.toList, text) :=
    splitOnce?_append_cons (hasNoBlank_of_isWord hname) (by decide) text
  obtain ⟨htrim, hholds⟩ := holds_of_ends hfirst (by decide) hhead hline
  simp only [read, htrim, hholds, splitOnce?_eq_none hnoEquals, hsplit, hread,
    String.ofList_toList, Bool.false_eq_true, if_false]

/-- Two words with an equal sign between them are read as an alias. -/
theorem read_synonym {name target : String} (hname : IsWord name) (htarget : IsWord target)
    (number : ℕ) :
    (read number (name.toList ++ " = ".toList ++ target.toList) :
      Except PaletteError (ListingLine α)) = .ok (.synonym name target) := by
  obtain ⟨first, rest, hchars, hfirst⟩ := exists_cons_of_isWord hname
  obtain ⟨inner, last, hinner⟩ := (target.toList.eq_nil_or_concat').resolve_left fun hnil =>
    htarget.1 (String.toList_eq_nil_iff.mp hnil)
  have hlast : isBlank last = false :=
    hasNoBlank_of_isWord htarget last (hinner ▸ List.mem_append_right _ List.mem_cons_self)
  have hhead : (name.toList ++ " = ".toList ++ target.toList).head? = some first := by
    rw [hchars]
    rfl
  have hline : name.toList ++ " = ".toList ++ target.toList =
      (name.toList ++ " = ".toList ++ inner) ++ [last] := by rw [hinner]; simp
  have hsplit : splitOnce? (· == '=') (name.toList ++ " = ".toList ++ target.toList) =
      some (name.toList ++ [' '], ' ' :: target.toList) := by
    have hjoin : name.toList ++ " = ".toList ++ target.toList =
        (name.toList ++ [' ']) ++ '=' :: ' ' :: target.toList := by simp
    rw [hjoin]
    refine splitOnce?_append_cons ?_ (by decide) _
    rw [List.forall_mem_append, List.forall_mem_singleton]
    exact ⟨ne_equals_of_isWord hname, by decide⟩
  have hblank : isBlank ' ' = true := by decide
  obtain ⟨htrim, hholds⟩ := holds_of_ends hfirst hlast hhead hline
  simp only [read, htrim, hholds, hsplit, trim_append_singleton (hasNoBlank_of_isWord hname) hblank,
    trim_cons_of_isBlank hblank, trim_of_hasNoBlank (hasNoBlank_of_isWord htarget),
    String.ofList_toList, Bool.false_eq_true, if_false]

end ListingLine

namespace Draft

variable {α : Type} [Scalar α] [Numeral α] [ColorModel α]

/-- Lines that can be read add what they hold to what the rest holds. -/
theorem ofLines_append {β : Type} {items : List β} {line : β → List Char}
    {held : β → ListingLine α}
    (hitems : ∀ item ∈ items, ∀ number, ListingLine.read number (line item) = .ok (held item))
    {rest : List (List Char)} {draft : Draft α} (hrest : ∀ number, ofLines number rest = .ok draft)
    (number : ℕ) :
    ofLines number (items.map line ++ rest) =
      .ok (items.foldr (fun item draft => (held item).addTo draft) draft) := by
  induction items generalizing number with
  | nil => exact hrest number
  | cons item items ih =>
    rw [List.map_cons, List.cons_append, ofLines, hitems item List.mem_cons_self,
      ih fun other hother => hitems other (List.mem_cons_of_mem _ hother)]
    rfl

omit [Scalar α] [Numeral α] [ColorModel α] in
/-- Named colors are put in front of a draft in order. -/
theorem foldr_entry {β : Type} (items : List β) (name : β → String) (color : β → Color α)
    (draft : Draft α) :
    items.foldr (fun item draft => (ListingLine.entry (name item) (color item)).addTo draft) draft =
      ⟨items.map (fun item => (name item, color item)) ++ draft.entries, draft.aliases⟩ := by
  induction items with
  | nil => rfl
  | cons item items ih => rw [List.foldr_cons, ih]; rfl

omit [Scalar α] [Numeral α] [ColorModel α] in
/-- Aliases are put in front of a draft in order. -/
theorem foldr_synonym (aliases : List (String × String)) (draft : Draft α) :
    aliases.foldr (fun pair draft => (ListingLine.synonym pair.1 pair.2).addTo draft) draft =
      ⟨draft.entries, aliases ++ draft.aliases⟩ := by
  induction aliases with
  | nil => rfl
  | cons pair aliases ih => rw [List.foldr_cons, ih]; rfl

end Draft

/-! ## Listings -/

namespace Palette

section Written

variable {α : Type} [Scalar α] [Numeral α] {palette : Palette α} {places : ℕ}

/-- A listing has a line for each named color and then a line for each alias. -/
theorem lines_listing (hbreak : ∀ entry ∈ palette.entries, '\n' ∉ entry.2.write places) :
    lines (palette.listing places) =
      palette.entries.map (fun entry => entry.1.toList ++ ' ' :: entry.2.write places) ++
        (palette.aliases.map (fun pair => pair.1.toList ++ " = ".toList ++ pair.2.toList) ++
          [[]]) := by
  have hword {name : String} (hname : IsWord name) : '\n' ∉ name.toList := fun hmem =>
    absurd (hname.2 _ hmem) (by decide)
  have hentryLine : entryLine places = fun entry : String × Color α =>
      (entry.1.toList ++ ' ' :: entry.2.write places) ++ ['\n'] := by
    funext entry
    simp [entryLine]
  have haliasLine : aliasLine = fun pair =>
      (pair.1.toList ++ " = ".toList ++ pair.2.toList) ++ ['\n'] := rfl
  have hentries : ∀ entry ∈ palette.entries,
      '\n' ∉ entry.1.toList ++ ' ' :: entry.2.write places := by
    intro entry hentry
    rw [List.mem_append, List.mem_cons, not_or, not_or]
    exact ⟨hword (palette.isWord_of_mem_entries hentry), by decide, hbreak entry hentry⟩
  have haliases : ∀ pair ∈ palette.aliases,
      '\n' ∉ pair.1.toList ++ " = ".toList ++ pair.2.toList := by
    intro pair hpair
    obtain ⟨hname, htarget⟩ := palette.isWord_of_mem_aliases hpair
    rw [List.mem_append, List.mem_append, not_or, not_or]
    exact ⟨⟨hword hname, by decide⟩, hword htarget⟩
  have hend := lines_flatMap haliases []
  rw [List.append_nil] at hend
  rw [listing, hentryLine, haliasLine, lines_flatMap hentries, hend]
  rfl

/-- If the fields of all colors are numerals, the lines of a listing hold the names with the colors
that their texts are read as, and the aliases. -/
theorem draft_ofListing_of_read [ColorModel α] {reread : Color α → Color α}
    (hfields : ∀ entry ∈ palette.entries,
      Color.HasFields (fun text => ∃ digits, Decimal.IsNumeral digits text) (entry.2.write places))
    (hread : ∀ entry ∈ palette.entries,
      Color.read (entry.2.write places) = .ok (reread entry.2)) :
    Draft.ofListing (palette.listing places) =
      .ok ⟨palette.entries.map fun entry => (entry.1, reread entry.2), palette.aliases⟩ := by
  have hnot {d : Char} (hdigit : d.isDigit = false) (hpoint : d ≠ '.') (hminus : d ≠ '-')
      (hd : d ∉ "oklab( /)".toList) : ∀ entry ∈ palette.entries, d ∉ entry.2.write places :=
    fun entry hentry => (hfields entry hentry).not_mem
      (fun ⟨_, hx⟩ => hx.not_mem hdigit hpoint hminus) hd
  have hentries : ∀ entry ∈ palette.entries, ∀ number,
      ListingLine.read number (entry.1.toList ++ ' ' :: entry.2.write places) =
        .ok (.entry entry.1 (reread entry.2)) := by
    intro entry hentry
    obtain ⟨inner, hlast⟩ := entry.2.exists_write_eq_append places
    exact ListingLine.read_entry (palette.isWord_of_mem_entries hentry) hlast
      (hnot (by decide) (by decide) (by decide) (by decide) entry hentry) (hread entry hentry)
  have haliases : ∀ pair ∈ palette.aliases, ∀ number,
      ListingLine.read number (pair.1.toList ++ " = ".toList ++ pair.2.toList) =
        .ok (.synonym pair.1 pair.2 : ListingLine α) := by
    intro pair hpair
    obtain ⟨hname, htarget⟩ := palette.isWord_of_mem_aliases hpair
    exact ListingLine.read_synonym hname htarget
  have hrest : ∀ number, (Draft.ofLines number [[]] : Except PaletteError (Draft α)) =
      .ok Draft.empty := fun _ => rfl
  rw [Draft.ofListing, lines_listing (hnot (by decide) (by decide) (by decide) (by decide)),
    Draft.ofLines_append hentries (Draft.ofLines_append haliases hrest), Draft.foldr_entry,
    Draft.foldr_synonym]
  simp [Draft.empty]

/-- So the listing is read as a palette with these colors and the same names and aliases. -/
theorem exists_ofListing_of_read [ColorModel α] {reread : Color α → Color α}
    (hfields : ∀ entry ∈ palette.entries,
      Color.HasFields (fun text => ∃ digits, Decimal.IsNumeral digits text) (entry.2.write places))
    (hread : ∀ entry ∈ palette.entries,
      Color.read (entry.2.write places) = .ok (reread entry.2)) :
    ∃ parsed : Palette α, ofListing (palette.listing places) = .ok parsed ∧
      parsed.entries = palette.entries.map (fun entry => (entry.1, reread entry.2)) ∧
      parsed.aliases = palette.aliases := by
  have hnames : (palette.entries.map fun entry => (entry.1, reread entry.2)).map Prod.fst =
      palette.names := by
    rw [List.map_map]
    rfl
  -- Faults concern names alone, and these are the same.
  have hvalid : Draft.error? ⟨palette.entries.map fun entry => (entry.1, reread entry.2),
      palette.aliases⟩ = none := by
    rw [Draft.error?, Draft.names, hnames]
    exact palette.valid
  refine ⟨⟨_, hvalid⟩, ?_, rfl, rfl⟩
  rw [ofListing, draft_ofListing_of_read hfields hread]
  exact (Draft.build_eq_ok_iff _ _).mpr rfl

end Written

variable (palette : Palette ℚ) (places : ℕ)

/-- The listing of a palette is read as a palette with the same names in the same order, the same
aliases with the same targets, and colors made from the channels as they were written, which are
rounded to the given number of decimals, halves away from zero. -/
theorem ofListing_listing [ColorModel ℚ] :
    let rounded := Rational.toDecimals places
    ∃ parsed : Palette ℚ, ofListing (palette.listing places) = .ok parsed ∧
      parsed.entries = palette.entries.map (fun entry =>
        (entry.1, Color.make
          ⟨rounded entry.2.lab.lightness, rounded entry.2.lab.a, rounded entry.2.lab.b⟩
          (rounded entry.2.alpha))) ∧
      parsed.aliases = palette.aliases ∧
      ∀ x, Rational.IsNearest places x (rounded x) := by
  have hlisting : ∃ parsed : Palette ℚ, ofListing (palette.listing places) = .ok parsed ∧
      parsed.entries = palette.entries.map (fun entry => (entry.1, entry.2.toDecimals places)) ∧
      parsed.aliases = palette.aliases :=
    exists_ofListing_of_read
      (fun _ _ => Color.hasFields_write fun x _ => ⟨places, Color.isNumeral_writeChannel places x⟩)
      fun entry _ => entry.2.read_write places
  obtain ⟨parsed, hparsed, hentries, haliases⟩ := hlisting
  exact ⟨parsed, hparsed, hentries, haliases, Rational.isNearest_toDecimals places⟩

end Palette

end ColorWords
