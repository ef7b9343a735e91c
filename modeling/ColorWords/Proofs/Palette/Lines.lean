import ColorWords.Proofs.Color.Characters
import ColorWords.Proofs.Palette.Listing
import Mathlib.Logic.Relation

/-!
# The lines of a listing

Each line of a listing holds something or fails, and which of the two depends only on its trimmed
text. The first line that fails decides the error. If there is none, the listing is the palette
built from what its lines hold, so it does not change under edits of lines that hold nothing, of
white space around lines, and of the order between aliases and colors.

A line with an equal sign is an alias before anything else is looked at. No color is lost to this,
because the text of a color has no equal sign unless numbers have one.
-/

namespace ColorWords

open Description Text

/-! ## Kinds of lines -/

/-- The line is blank or a comment. -/
def IsSkipped (line : List Char) : Prop := trim line = [] ∨ (trim line).head? = some ';'

/-- The line is one for an alias. -/
def IsAliasLine (line : List Char) : Prop := ¬ IsSkipped line ∧ '=' ∈ trim line

/-- The line is one for a named color. -/
def IsColorLine (line : List Char) : Prop := ¬ IsSkipped line ∧ '=' ∉ trim line

/-- The lines are the same apart from white space around them. -/
def SameTrimmed (line other : List Char) : Prop := trim line = trim other

variable {α : Type} [Scalar α] [Numeral α] [ColorModel α]

/-- What a line holds: nothing; an alias and its target around the first equal sign; or a name
that reaches up to the first blank, and the color after it. -/
inductive Holds : List Char → ListingLine α → Prop where
  | blank {line : List Char} (hline : IsSkipped line) : Holds line .blank
  | synonym {line name target : List Char} (hline : IsAliasLine line) (hname : '=' ∉ name)
      (htrim : trim line = name ++ '=' :: target) :
      Holds line (.synonym (String.ofList (trim name)) (String.ofList (trim target)))
  | entry {line name text : List Char} {gap : Char} {c : Color α} (hline : IsColorLine line)
      (hname : HasNoBlank name) (hgap : isBlank gap = true)
      (htrim : trim line = name ++ gap :: text) (hread : Color.read text = .ok c) :
      Holds line (.entry (String.ofList name) c)

variable (α)

/-- Why a line fails, by its number: there is no white space in it, or what follows the first
blank is no color. -/
inductive Fails : List Char → (ℕ → PaletteError) → Prop where
  | noBlank {line : List Char} (hline : IsColorLine line) (hblank : HasNoBlank (trim line)) :
      Fails line .malformedLine
  | noColor {line name text : List Char} {gap : Char} {cause : ColorError}
      (hline : IsColorLine line) (hname : HasNoBlank name) (hgap : isBlank gap = true)
      (htrim : trim line = name ++ gap :: text)
      (hread : (Color.read text : Except ColorError (Color α)) = .error cause) :
      Fails line fun number => .malformedColor number cause

variable {α}

/-! ## Reading a line -/

namespace ListingLine

/-- The test for lines that hold nothing. -/
theorem isSkipped_iff (line : List Char) :
    IsSkipped line ↔ ((trim line).isEmpty || (trim line).head? == some ';') = true := by
  simp [IsSkipped]

/-- A color line is read from its parts around the first blank. -/
theorem read_of_isColorLine {line : List Char} (hline : IsColorLine line) (number : ℕ) :
    (read number line : Except PaletteError (ListingLine α)) =
      match splitOnce? isBlank (trim line) with
      | none => .error (.malformedLine number)
      | some (name, text) =>
        match Color.read text with
        | .error cause => .error (.malformedColor number cause)
        | .ok color => .ok (.entry (String.ofList name) color) := by
  obtain ⟨hskip, hequals⟩ := hline
  have hnone : splitOnce? (· == '=') (trim line) = none :=
    splitOnce?_eq_none fun c hc => beq_false_of_ne fun heq => hequals (heq ▸ hc)
  rw [isSkipped_iff] at hskip
  unfold read
  dsimp only
  rw [if_neg hskip]
  generalize splitOnce? (· == '=') (trim line) = parts at hnone
  subst hnone
  rfl

/-- A line that holds something is read as this. -/
theorem read_of_holds {line : List Char} {held : ListingLine α} (h : Holds line held)
    (number : ℕ) : read number line = .ok held := by
  cases h with
  | blank hline =>
    rw [isSkipped_iff] at hline
    simp only [read, hline, if_true]
  | @synonym name target hline hname htrim =>
    have hskip := mt (isSkipped_iff line).mpr hline.1
    have hsplit : splitOnce? (· == '=') (name ++ '=' :: target) = some (name, target) :=
      splitOnce?_append_cons (fun c hc => beq_false_of_ne (ne_of_mem_of_not_mem hc hname))
        (by decide) target
    rw [htrim] at hskip
    simp only [read, htrim, hskip, hsplit, Bool.false_eq_true, if_false]
  | entry hline hname hgap htrim hread =>
    rw [read_of_isColorLine hline, htrim, splitOnce?_append_cons hname hgap]
    simp only [hread]

/-- A line that fails is rejected for this. -/
theorem read_of_fails {line : List Char} {error : ℕ → PaletteError} (h : Fails α line error)
    (number : ℕ) :
    (read number line : Except PaletteError (ListingLine α)) = .error (error number) := by
  cases h with
  | noBlank hline hblank =>
    rw [read_of_isColorLine hline, splitOnce?_eq_none hblank]
  | noColor hline hname hgap htrim hread =>
    rw [read_of_isColorLine hline, htrim, splitOnce?_append_cons hname hgap]
    simp only [hread]

/-- Every line holds something or fails. -/
theorem exists_holds_or_fails (line : List Char) :
    (∃ held : ListingLine α, Holds line held) ∨ ∃ error, Fails α line error := by
  by_cases hskip : IsSkipped line
  · exact Or.inl ⟨_, .blank hskip⟩
  · by_cases hequals : '=' ∈ trim line
    · obtain ⟨name, target, htrim, hname⟩ := List.eq_append_cons_of_mem hequals
      exact Or.inl ⟨_, .synonym ⟨hskip, hequals⟩ hname htrim⟩
    · cases hsplit : splitOnce? isBlank (trim line) with
      | none => exact Or.inr ⟨_, .noBlank ⟨hskip, hequals⟩ (splitOnce?_eq_none_iff.mp hsplit)⟩
      | some parts =>
        obtain ⟨gap, hgap, hname, htrim⟩ := exists_eq_of_splitOnce? hsplit
        cases hread : (Color.read parts.2 : Except ColorError (Color α)) with
        | ok c => exact Or.inl ⟨_, .entry ⟨hskip, hequals⟩ hname hgap htrim hread⟩
        | error cause => exact Or.inr ⟨_, .noColor ⟨hskip, hequals⟩ hname hgap htrim hread⟩

/-- A line is read like any other that is the same apart from white space around it. -/
theorem read_eq_of_sameTrimmed {line other : List Char} (h : SameTrimmed line other)
    (number : ℕ) :
    (read number line : Except PaletteError (ListingLine α)) = read number other := by
  unfold SameTrimmed at h
  rw [read, h, read]

/-- Exactly the lines that hold something are read as this. -/
theorem read_eq_ok_iff (line : List Char) (held : ListingLine α) (number : ℕ) :
    read number line = .ok held ↔ Holds line held := by
  refine ⟨fun hread => ?_, fun h => read_of_holds h number⟩
  rcases exists_holds_or_fails (α := α) line with ⟨other, hother⟩ | ⟨error, herror⟩
  · exact Except.ok.inj ((read_of_holds hother number).symm.trans hread) ▸ hother
  · exact absurd ((read_of_fails herror number).symm.trans hread) (by simp)

/-- Lines that are the same apart from white space around them hold the same. -/
theorem holds_of_sameTrimmed {line other : List Char} (h : SameTrimmed line other)
    {held : ListingLine α} (hline : Holds line held) : Holds other held := by
  rw [← read_eq_ok_iff other held 0, ← read_eq_of_sameTrimmed h]
  exact read_of_holds hline 0

/-- A line that holds something does not fail. -/
theorem not_fails_of_holds {line : List Char} {held : ListingLine α} (h : Holds line held) :
    ¬ ∃ error, Fails α line error := by
  rintro ⟨error, herror⟩
  exact absurd ((read_of_holds h 0).symm.trans (read_of_fails herror 0)) (by simp)

/-- The named color that a line holds. -/
def entry? : ListingLine α → Option (String × Color α)
  | entry name color => some (name, color)
  | _ => none

/-- The alias that a line holds, with its target. -/
def synonym? : ListingLine α → Option (String × String)
  | synonym name target => some (name, target)
  | _ => none

end ListingLine

/-! ## Reading all lines -/

namespace Draft

/-- The named colors and the aliases that lines hold, each in order. -/
def ofHeld (helds : List (ListingLine α)) : Draft α :=
  ⟨helds.filterMap ListingLine.entry?, helds.filterMap ListingLine.synonym?⟩

omit [Scalar α] [Numeral α] [ColorModel α] in
/-- What the first line holds comes first. -/
theorem ofHeld_cons (held : ListingLine α) (helds : List (ListingLine α)) :
    ofHeld (held :: helds) = held.addTo (ofHeld helds) := by
  cases held <;> rfl

omit [Scalar α] [Numeral α] [ColorModel α] in
/-- Lines that hold nothing add nothing. -/
theorem ofHeld_append_blank (before after : List (ListingLine α)) :
    ofHeld (before ++ .blank :: after) = ofHeld (before ++ after) := by
  simp [ofHeld, List.filterMap_cons, ListingLine.entry?, ListingLine.synonym?]

omit [Scalar α] [Numeral α] [ColorModel α] in
/-- The order of aliases and named colors among each other does not matter. -/
theorem ofHeld_swap (before after : List (ListingLine α)) (name target : String)
    (entry : String) (c : Color α) :
    ofHeld (before ++ .synonym name target :: .entry entry c :: after) =
      ofHeld (before ++ .entry entry c :: .synonym name target :: after) := by
  simp [ofHeld, List.filterMap_cons, ListingLine.entry?, ListingLine.synonym?]

/-- Lines are read as what they hold. -/
theorem ofLines_of_holds {lines : List (List Char)} {helds : List (ListingLine α)}
    (h : List.Forall₂ Holds lines helds) (number : ℕ) :
    ofLines number lines = .ok (ofHeld helds) := by
  induction h generalizing number with
  | nil => rfl
  | cons hline _ ih =>
    rw [ofLines, ListingLine.read_of_holds hline, ofHeld_cons]
    simp only [ih]
    rfl

/-- The first line that fails is reported, with its number. -/
theorem ofLines_of_fails {before : List (List Char)} {line : List Char}
    (hbefore : ∀ earlier ∈ before, ¬ ∃ error, Fails α earlier error)
    {error : ℕ → PaletteError} (hline : Fails α line error) (after : List (List Char))
    (number : ℕ) :
    (ofLines number (before ++ line :: after) : Except PaletteError (Draft α)) =
      .error (error (number + before.length)) := by
  induction before generalizing number with
  | nil =>
    rw [List.nil_append, ofLines, ListingLine.read_of_fails hline]
    rfl
  | cons earlier before ih =>
    rw [List.forall_mem_cons] at hbefore
    obtain ⟨held, hheld⟩ := (ListingLine.exists_holds_or_fails earlier).resolve_right hbefore.1
    rw [List.cons_append, ofLines, ListingLine.read_of_holds hheld]
    simp only [ih hbefore.2]
    rw [List.length_cons, Nat.add_right_comm, Nat.add_assoc]
    rfl

/-- Lines that are the same apart from white space around them are read alike. -/
theorem ofLines_eq_of_sameTrimmed {lines others : List (List Char)}
    (h : List.Forall₂ SameTrimmed lines others) (number : ℕ) :
    (ofLines number lines : Except PaletteError (Draft α)) = ofLines number others := by
  induction h generalizing number with
  | nil => rfl
  | cons hline _ ih => rw [ofLines, ListingLine.read_eq_of_sameTrimmed hline, ih, ofLines]

/-- Lines none of which fails hold something each. -/
theorem exists_forall₂_holds {lines : List (List Char)}
    (h : ∀ line ∈ lines, ¬ ∃ error, Fails α line error) :
    ∃ helds : List (ListingLine α), List.Forall₂ Holds lines helds := by
  induction lines with
  | nil => exact ⟨[], .nil⟩
  | cons line lines ih =>
    rw [List.forall_mem_cons] at h
    obtain ⟨held, hheld⟩ := (ListingLine.exists_holds_or_fails line).resolve_right h.1
    obtain ⟨helds, hhelds⟩ := ih h.2
    exact ⟨held :: helds, .cons hheld hhelds⟩

end Draft

/-- The lines hold the named colors and the aliases of the draft. -/
def HoldDraft (lines : List (List Char)) (draft : Draft α) : Prop :=
  ∃ helds, List.Forall₂ Holds lines helds ∧ Draft.ofHeld helds = draft

/-- Lines hold the draft that is read from them. -/
theorem Draft.holdDraft_of_ofLines {lines : List (List Char)} {number : ℕ} {draft : Draft α}
    (h : ofLines number lines = .ok draft) : HoldDraft lines draft := by
  induction lines generalizing number draft with
  | nil => exact ⟨[], .nil, Except.ok.inj h⟩
  | cons line lines ih =>
    rw [ofLines] at h
    split at h
    · cases h
    · next held hheld =>
      cases hrest : (ofLines (number + 1) lines : Except PaletteError (Draft α)) with
      | error error => simp [hrest, Except.map] at h
      | ok rest =>
        obtain ⟨helds, hhelds, rfl⟩ := ih hrest
        rw [hrest] at h
        refine ⟨held :: helds, .cons ((ListingLine.read_eq_ok_iff _ _ _).mp hheld) hhelds, ?_⟩
        rw [ofHeld_cons]
        exact Except.ok.inj h

/-! ## Edits -/

/-- A change of one line that matters for no palette: a line that holds nothing is added or taken
away, white space around a line changes, or an alias and a color line trade places. -/
inductive Edit : List (List Char) → List (List Char) → Prop where
  | insert {before after : List (List Char)} {line : List Char} (hline : IsSkipped line) :
      Edit (before ++ after) (before ++ line :: after)
  | delete {before after : List (List Char)} {line : List Char} (hline : IsSkipped line) :
      Edit (before ++ line :: after) (before ++ after)
  | indent {before after : List (List Char)} {line other : List Char}
      (hline : SameTrimmed line other) : Edit (before ++ line :: after) (before ++ other :: after)
  | lowerAlias {before after : List (List Char)} {synonym color : List Char}
      (hsynonym : IsAliasLine synonym) (hcolor : IsColorLine color) :
      Edit (before ++ synonym :: color :: after) (before ++ color :: synonym :: after)
  | raiseAlias {before after : List (List Char)} {synonym color : List Char}
      (hsynonym : IsAliasLine synonym) (hcolor : IsColorLine color) :
      Edit (before ++ color :: synonym :: after) (before ++ synonym :: color :: after)

/-- A line that is skipped holds nothing. -/
theorem Holds.eq_blank {line : List Char} {held : ListingLine α} (h : Holds line held)
    (hline : IsSkipped line) : held = .blank := by
  cases h with
  | blank => rfl
  | synonym hother => exact absurd hline hother.1
  | entry hother => exact absurd hline hother.1

/-- An alias line holds an alias. -/
theorem Holds.exists_synonym {line : List Char} {held : ListingLine α} (h : Holds line held)
    (hline : IsAliasLine line) : ∃ name target, held = .synonym name target := by
  cases h with
  | blank hother => exact absurd hother hline.1
  | synonym => exact ⟨_, _, rfl⟩
  | entry hother => exact absurd hline.2 hother.2

/-- A color line holds a named color. -/
theorem Holds.exists_entry {line : List Char} {held : ListingLine α} (h : Holds line held)
    (hline : IsColorLine line) : ∃ name c, held = .entry name c := by
  cases h with
  | blank hother => exact absurd hother hline.1
  | synonym hother => exact absurd hother.2 hline.2
  | entry => exact ⟨_, _, rfl⟩

/-- What lines hold is what the first of them and the others hold. -/
theorem exists_helds_of_append {before after : List (List Char)} {helds : List (ListingLine α)}
    (h : List.Forall₂ Holds (before ++ after) helds) :
    ∃ first rest, List.Forall₂ Holds before first ∧ List.Forall₂ Holds after rest ∧
      helds = first ++ rest :=
  ⟨_, _, (List.forall₂_take_append _ _ _ h.flip).flip, (List.forall₂_drop_append _ _ _ h.flip).flip,
    (List.take_append_drop _ _).symm⟩

/-- An edit does not change the draft that lines hold. -/
theorem Edit.holdDraft {lines others : List (List Char)} (h : Edit lines others)
    {draft : Draft α} (hlines : HoldDraft lines draft) : HoldDraft others draft := by
  obtain ⟨helds, hhelds, rfl⟩ := hlines
  cases h with
  | insert hline =>
    obtain ⟨first, rest, hfirst, hrest, rfl⟩ := exists_helds_of_append hhelds
    exact ⟨first ++ .blank :: rest, List.rel_append hfirst (.cons (.blank hline) hrest),
      Draft.ofHeld_append_blank first rest⟩
  | delete hline =>
    obtain ⟨first, rest, hfirst, hrest, rfl⟩ := exists_helds_of_append hhelds
    obtain _ | ⟨hheld, hrest⟩ := hrest
    obtain rfl := hheld.eq_blank hline
    exact ⟨_, List.rel_append hfirst hrest, (Draft.ofHeld_append_blank _ _).symm⟩
  | indent hline =>
    obtain ⟨first, rest, hfirst, hrest, rfl⟩ := exists_helds_of_append hhelds
    obtain _ | ⟨hheld, hrest⟩ := hrest
    have hother := ListingLine.holds_of_sameTrimmed hline hheld
    exact ⟨_, List.rel_append hfirst (.cons hother hrest), rfl⟩
  | lowerAlias hsynonym hcolor =>
    obtain ⟨first, rest, hfirst, hrest, rfl⟩ := exists_helds_of_append hhelds
    obtain _ | ⟨hx, _ | ⟨hy, hrest⟩⟩ := hrest
    obtain ⟨name, target, rfl⟩ := hx.exists_synonym hsynonym
    obtain ⟨entry, c, rfl⟩ := hy.exists_entry hcolor
    exact ⟨_, List.rel_append hfirst (.cons hy (.cons hx hrest)),
      (Draft.ofHeld_swap _ _ _ _ _ _).symm⟩
  | raiseAlias hsynonym hcolor =>
    obtain ⟨first, rest, hfirst, hrest, rfl⟩ := exists_helds_of_append hhelds
    obtain _ | ⟨hy, _ | ⟨hx, hrest⟩⟩ := hrest
    obtain ⟨name, target, rfl⟩ := hx.exists_synonym hsynonym
    obtain ⟨entry, c, rfl⟩ := hy.exists_entry hcolor
    exact ⟨_, List.rel_append hfirst (.cons hx (.cons hy hrest)), Draft.ofHeld_swap _ _ _ _ _ _⟩

/-- Neither do any number of edits. -/
theorem holdDraft_of_edits {lines others : List (List Char)}
    (h : Relation.ReflTransGen Edit lines others) {draft : Draft α}
    (hlines : HoldDraft lines draft) : HoldDraft others draft := by
  induction h with
  | refl => exact hlines
  | tail _ hedit ih => exact hedit.holdDraft ih

/-! ## Line ends -/

/-- Put a carriage return in front of each line feed. -/
def withCarriageReturns (text : List Char) : List Char :=
  text.flatMap fun c => if c = '\n' then ['\r', '\n'] else [c]

/-- Carriage returns are white space around lines. -/
theorem sameTrimmed_withCarriageReturns (text : List Char) :
    List.Forall₂ SameTrimmed (lines text) (lines (withCarriageReturns text)) := by
  have hline {line : List Char} (h : '\n' ∉ line) : withCarriageReturns line = line := by
    have hsingle : ∀ c ∈ line, (if c = '\n' then ['\r', '\n'] else [c]) = [c] :=
      fun c hc => if_neg (ne_of_mem_of_not_mem hc h)
    rw [withCarriageReturns, List.flatMap_congr hsingle, List.flatMap_singleton']
  by_cases hfeed : '\n' ∈ text
  · obtain ⟨line, rest, htext, hfirst⟩ := List.eq_append_cons_of_mem hfeed
    have hshorter : rest.length < text.length := by
      rw [htext, List.length_append, List.length_cons]
      omega
    have hjoin : withCarriageReturns (line ++ '\n' :: rest) =
        (line ++ ['\r']) ++ '\n' :: withCarriageReturns rest := by
      rw [withCarriageReturns, List.flatMap_append, ← withCarriageReturns, hline hfirst]
      simp [withCarriageReturns]
    have hreturn : SameTrimmed line (line ++ ['\r']) :=
      (@trim_append [] ['\r'] (by decide) (by decide) line).symm
    rw [htext, hjoin, lines_append_cons hfirst, lines_append_cons (by simp [hfirst])]
    exact .cons hreturn (sameTrimmed_withCarriageReturns rest)
  · rw [hline hfeed]
    exact List.forall₂_same.mpr fun _ _ => rfl
termination_by text.length

/-! ## Listings -/

namespace ListingLine

/-- A name that is a word, white space and the text of a color make up a line for this color. -/
theorem holds_entry (hforeign : Color.IsForeign α '=') {name : String} (hname : IsWord name)
    {gap text line : List Char} (hgap : AllBlank gap) (hne : gap ≠ []) {c : Color α}
    (hread : Color.read text = .ok c) (hline : SameTrimmed line (name.toList ++ gap ++ text)) :
    Holds line (.entry name c) := by
  obtain ⟨blank, more, rfl⟩ := List.exists_cons_of_ne_nil hne
  obtain ⟨hblank, hmore⟩ := List.forall_mem_cons.mp hgap
  obtain ⟨first, letters, hchars, hfirst⟩ := exists_cons_of_isWord hname
  obtain ⟨after, hafter, htext⟩ := exists_eq_trimEnd_append text
  -- The color is read alike without the white space that is trimmed off.
  have hinner : Color.read (more ++ trimEnd text) = .ok c := by
    have hnil : AllBlank [] := by decide
    have hstart := Color.read_eq_of_lowered_eq (α := α) hmore hnil (@rfl _ (lowered (trimEnd text)))
    have hend := Color.read_eq_of_lowered_eq (α := α) hnil hafter (@rfl _ (lowered (trimEnd text)))
    rw [List.append_nil] at hstart
    rw [List.nil_append, ← htext, hread] at hend
    rw [hstart, ← hend]
  have htrim : trim line = name.toList ++ blank :: (more ++ trimEnd text) := by
    rw [hline, trim_eq_trimEnd, hchars, List.append_assoc, List.cons_append,
      trimStart_cons (isBlank_of_isAlpha hfirst), ← List.cons_append, ← List.append_assoc,
      trimEnd_append_of_not_allBlank (Color.not_allBlank_of_read hread)]
    simp
  have hequals : '=' ∉ trim line := by
    have hletters : '=' ∉ name.toList := fun hmem => absurd (hname.2 _ hmem) (by decide)
    have hcolor := hforeign.not_mem_of_read hinner
    have hgap := hgap.not_mem hforeign.not_blank
    rw [htrim, List.mem_append, List.mem_cons, not_or, not_or]
    exact ⟨hletters, fun heq => hgap (heq ▸ List.mem_cons_self), hcolor⟩
  have hskip : ¬ IsSkipped line := by
    have hsemicolon : first ≠ ';' := fun heq => absurd (heq ▸ hfirst) (by decide)
    rw [IsSkipped, htrim, hchars]
    simp [hsemicolon]
  have hentry := Holds.entry ⟨hskip, hequals⟩ (hasNoBlank_of_isWord hname) hblank htrim hinner
  rwa [String.ofList_toList] at hentry

end ListingLine

namespace Palette

/-- A listing whose lines hold a draft is read as the palette of this draft. -/
theorem ofListing_of_holds {text : List Char} {helds : List (ListingLine α)}
    (h : List.Forall₂ Holds (lines text) helds) : ofListing text = (Draft.ofHeld helds).build := by
  rw [ofListing, Draft.ofListing, Draft.ofLines_of_holds h]

/-- The lines of a palette hold its draft. -/
theorem holdDraft_of_ofListing {text : List Char} {palette : Palette α}
    (h : ofListing text = .ok palette) : HoldDraft (lines text) palette.toDraft := by
  unfold ofListing at h
  split at h
  · cases h
  · next draft hdraft =>
    rw [(Draft.build_eq_ok_iff draft palette).mp h]
    exact Draft.holdDraft_of_ofLines hdraft

/-- The first line of a listing that fails is reported with its number, counted over all lines,
whatever the names before it. If no line fails, the listing is read as the palette built from the
named colors and from the aliases that its lines hold, each in order. A word, white space and the
text of a color on a line are always a named color. Edits do not change a palette, and neither do
carriage returns before line feeds. -/
theorem ofListing_of_lines (havoid : Numeral.Avoids α '=') (text : List Char) :
    (∀ before line after error, lines text = before ++ line :: after →
      (∀ earlier ∈ before, ¬ ∃ error, Fails α earlier error) → Fails α line error →
      (ofListing text : Except PaletteError (Palette α)) = .error (error (before.length + 1))) ∧
    ((∀ line ∈ lines text, ¬ ∃ error, Fails α line error) →
      ∃ helds : List (ListingLine α), List.Forall₂ Holds (lines text) helds ∧
        ofListing text = (Draft.ofHeld helds).build) ∧
    (∀ (name : String) (gap color line : List Char) (c : Color α), IsWord name → AllBlank gap →
      gap ≠ [] → Color.read color = .ok c → SameTrimmed line (name.toList ++ gap ++ color) →
      ∀ held, Holds line held ↔ held = .entry name c) ∧
    (∀ (other : List Char) (palette : Palette α), ofListing text = .ok palette →
      Relation.ReflTransGen Edit (lines text) (lines other) → ofListing other = .ok palette) ∧
    (ofListing (withCarriageReturns text) : Except PaletteError (Palette α)) = ofListing text := by
  have hforeign : Color.IsForeign α '=' := ⟨by decide, by decide, by decide, by decide, havoid⟩
  refine ⟨?_, ?_, ?_, ?_, ?_⟩
  · intro before line after error hlines hbefore hline
    rw [ofListing, Draft.ofListing, hlines, Draft.ofLines_of_fails hbefore hline, Nat.add_comm]
  · intro hlines
    obtain ⟨helds, hhelds⟩ := Draft.exists_forall₂_holds hlines
    exact ⟨helds, hhelds, ofListing_of_holds hhelds⟩
  · intro name gap color line c hname hgap hne hread hline held
    have hentry := ListingLine.holds_entry hforeign hname hgap hne hread hline
    refine ⟨fun hheld => ?_, fun heq => heq ▸ hentry⟩
    exact Except.ok.inj ((ListingLine.read_of_holds hheld 0).symm.trans
      (ListingLine.read_of_holds hentry 0))
  · intro other palette hpalette hedits
    obtain ⟨helds, hhelds, hdraft⟩ := holdDraft_of_edits hedits (holdDraft_of_ofListing hpalette)
    rw [ofListing_of_holds hhelds, hdraft]
    exact (Draft.build_eq_ok_iff _ _).mpr rfl
  · rw [ofListing, Draft.ofListing,
      ← Draft.ofLines_eq_of_sameTrimmed (sameTrimmed_withCarriageReturns text), ofListing,
      Draft.ofListing]

/-- An unreadable color on the third line is reported before the invalid name on the second one. -/
theorem ofListing_of_lines_third :
    (ofListing "; two faults\n42 #fff\nink #12\nink = ink".toList :
      Except PaletteError (Palette Float)) = .error (.malformedColor 3 .unexpectedCharacters) := by
  have havoid : Numeral.Avoids Float '=' :=
    Binary64.avoids_of_not_isPlain (by unfold Literal.IsPlain; decide)
  have hfirst : Holds "; two faults".toList (.blank : ListingLine Float) :=
    .blank (Or.inr (by decide))
  have hnumber : HasNoBlank "42".toList := by decide
  have hword : HasNoBlank "ink".toList := by decide
  have hsecond : Holds "42 #fff".toList
      (.entry "42" (Color.ofBytes ⟨255, 255, 255⟩ : Color Float)) :=
    .entry ⟨by unfold IsSkipped; decide, by decide⟩ hnumber (by decide) rfl rfl
  have hthird : Fails Float "ink #12".toList fun n => .malformedColor n .unexpectedCharacters :=
    .noColor ⟨by unfold IsSkipped; decide, by decide⟩ hword (by decide) rfl rfl
  refine (ofListing_of_lines havoid _).1 ["; two faults".toList, "42 #fff".toList] _ _ _ rfl ?_
    hthird
  rw [List.forall_mem_cons, List.forall_mem_singleton]
  exact ⟨ListingLine.not_fails_of_holds hfirst, ListingLine.not_fails_of_holds hsecond⟩

end Palette

end ColorWords
