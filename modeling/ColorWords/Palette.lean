import ColorWords.Color.Error
import ColorWords.Color
import ColorWords.Least
import ColorWords.Notice

/-!
# Palettes

A palette names colors and gives some of them further names. It is assembled as a `Draft` and
exists only if the draft has no fault: every name consists of ASCII letters, no name is used
twice, and every alias stands for a named color. Faults are reported in a fixed order, names
before targets.
-/

namespace ColorWords

/-- Why a draft or listing is not a palette. -/
inductive PaletteError where
  | invalidName (name : String)
  | duplicateName (name : String)
  | unknownAliasTarget (name : String)
  | malformedLine (line : Nat)
  | malformedColor (line : Nat) (cause : ColorError)
deriving DecidableEq

namespace PaletteError

/-- The message for the user. -/
def message : PaletteError → String
  | invalidName name => "color name " ++ Text.quoted name ++ " should consist of ASCII letters only"
  | duplicateName name => "color name " ++ Text.quoted name ++ " is already in use"
  | unknownAliasTarget name => "alias target " ++ Text.quoted name ++ " is not a color"
  | malformedLine line =>
    "line " ++ toString line ++ " should be `name color` or `alias = name`"
  | malformedColor line _ => "could not parse color on line " ++ toString line

/-- The underlying cause, if there is one. -/
def cause? : PaletteError → Option ColorError
  | malformedColor _ cause => some cause
  | _ => none

end PaletteError

/-- Named colors and aliases in the order of their definition, not yet checked. -/
structure Draft (α : Type) where
  entries : List (String × Color α)
  aliases : List (String × String)

/-- One addition to a draft: a named color, or a further name for one. -/
inductive Addition (α : Type) where
  | entry (name : String) (color : Color α)
  | synonym (name target : String)

namespace Draft

/-- Determine whether descriptions can hold the name, being a nonempty run of ASCII letters. -/
def isName (name : String) : Bool := !name.isEmpty && name.toList.all Char.isAlpha

/-- What a look at the names of a draft yields: remarks up to the first fault, and that fault. -/
structure Survey where
  notices : List Notice
  error? : Option PaletteError

/-- Look at names in order, given those seen before. -/
def surveyFrom (seen : List String) : List String → Survey
  | [] => ⟨[], none⟩
  | name :: rest =>
    if !isName name then ⟨[], some (.invalidName name)⟩
    else if name ∈ seen then ⟨[], some (.duplicateName name)⟩
    else
      let survey := surveyFrom (name :: seen) rest
      match Adjective.ofWord? name with
      | some adjective => { survey with notices := .adjectiveName name adjective :: survey.notices }
      | none => survey

/-- The fault of the first alias that does not stand for a named color. -/
def targetError? (names : List String) (aliases : List (String × String)) : Option PaletteError :=
  (aliases.find? fun (_, target) => !names.contains target).map fun (_, target) =>
    .unknownAliasTarget target

/-- The first fault of the given names and aliases. -/
def firstError? (names : List String) (aliases : List (String × String)) : Option PaletteError :=
  (surveyFrom [] (names ++ aliases.map Prod.fst)).error? <|> targetError? names aliases

variable {α : Type}

/-- The draft of nothing. -/
def empty : Draft α := ⟨[], []⟩

/-- Add a named color. -/
def addColor (draft : Draft α) (name : String) (color : Color α) : Draft α :=
  { draft with entries := draft.entries ++ [(name, color)] }

/-- Add an alias of a named color. -/
def addAlias (draft : Draft α) (name target : String) : Draft α :=
  { draft with aliases := draft.aliases ++ [(name, target)] }

/-- Make one addition. -/
def add (draft : Draft α) : Addition α → Draft α
  | .entry name color => draft.addColor name color
  | .synonym name target => draft.addAlias name target

/-- The draft that additions lead to, made in order. -/
def ofAdditions (additions : List (Addition α)) : Draft α := additions.foldl add empty

/-- The names of the colors, without aliases. -/
def names (draft : Draft α) : List String := draft.entries.map Prod.fst

/-- The first fault. -/
def error? (draft : Draft α) : Option PaletteError := firstError? draft.names draft.aliases

/-- Remarks about names that read as adjectives, up to the first fault among names. -/
def notices (draft : Draft α) : List Notice :=
  (surveyFrom [] (draft.names ++ draft.aliases.map Prod.fst)).notices

end Draft

/-- A draft without fault. -/
structure Palette (α : Type) extends Draft α where
  valid : toDraft.error? = none

/-- Check a draft. -/
def Draft.build {α : Type} (draft : Draft α) : Except PaletteError (Palette α) :=
  match h : draft.error? with
  | none => .ok ⟨draft, h⟩
  | some error => .error error

namespace Palette

variable {α : Type}

/-- The number of named colors. -/
def size (palette : Palette α) : Nat := palette.entries.length

/-- Determine whether there are no named colors. -/
def isEmpty (palette : Palette α) : Bool := palette.entries.isEmpty

/-- The name that an alias stands for. -/
def aliasTarget? (palette : Palette α) (name : String) : Option String :=
  palette.aliases.lookup name

/-- The color with a name or alias. -/
def get? (palette : Palette α) (name : String) : Option (Color α) :=
  match palette.entries.lookup name with
  | some color => some color
  | none => (palette.aliasTarget? name).bind fun target => palette.entries.lookup target

/-- Determine whether the name is that of a color or an alias. -/
def contains (palette : Palette α) (name : String) : Bool := (palette.get? name).isSome

/-- The aliases with their colors. -/
def aliasColors (palette : Palette α) : List (String × Color α) :=
  palette.aliases.filterMap fun (name, target) =>
    (palette.entries.lookup target).map fun color => (name, color)

variable [Scalar α]

/-- The color with a name or alias, and the neutral color for all other names. -/
def lookup (palette : Palette α) (name : String) : Color α :=
  (palette.get? name).getD Color.neutral

/-- The name of the first color with the least difference. -/
def closestName? [ColorModel α] (palette : Palette α) (c : Color α) : Option String :=
  (leastIndex? palette.entries.length fun i =>
    c.difference (palette.entries.get i).2).map fun (i, _) => (palette.entries.get i).1

end Palette

end ColorWords
