import ColorWords.Palette
import ColorWords.Color.Reader
import ColorWords.Color.Printer

/-!
# Palette listings

A listing has one entry per line: a name and a color with white space between them, or an
alias and its target with an equal sign between them. Blank lines and lines that start with a
semicolon hold nothing. An equal sign anywhere makes a line an alias.

The first line that is neither is an error, and its number counts all lines. Names are looked
at only once all lines are read.
-/

namespace ColorWords

/-- What a line of a listing holds. -/
inductive ListingLine (α : Type) where
  | blank
  | entry (name : String) (color : Color α)
  | synonym (name target : String)

namespace ListingLine

variable {α : Type} [Scalar α] [Numeral α] [ColorModel α]

/-- Read the line with the given number. -/
def read (number : Nat) (line : List Char) : Except PaletteError (ListingLine α) :=
  let line := Text.trim line
  if line.isEmpty || line.head? == some ';' then .ok .blank
  else
    match Text.splitOnce? (· == '=') line with
    | some (name, target) =>
      .ok (.synonym (String.ofList (Text.trim name)) (String.ofList (Text.trim target)))
    | none =>
      match Text.splitOnce? Text.isBlank line with
      | none => .error (.malformedLine number)
      | some (name, text) =>
        match Color.read text with
        | .error cause => .error (.malformedColor number cause)
        | .ok color => .ok (.entry (String.ofList name) color)

/-- Put what a line holds in front of a draft. -/
def addTo (draft : Draft α) : ListingLine α → Draft α
  | blank => draft
  | entry name color => { draft with entries := (name, color) :: draft.entries }
  | synonym name target => { draft with aliases := (name, target) :: draft.aliases }

end ListingLine

namespace Draft

variable {α : Type} [Scalar α] [Numeral α] [ColorModel α]

/-- Read lines, the first of which has the given number. -/
def ofLines (number : Nat) : List (List Char) → Except PaletteError (Draft α)
  | [] => .ok empty
  | line :: rest =>
    match ListingLine.read number line with
    | .error error => .error error
    | .ok held => (ofLines (number + 1) rest).map fun draft => held.addTo draft

/-- Read a listing. -/
def ofListing (text : List Char) : Except PaletteError (Draft α) := ofLines 1 (Text.lines text)

end Draft

namespace Palette

variable {α : Type} [Scalar α] [Numeral α]

/-- Read a listing and check it. -/
def ofListing [ColorModel α] (text : List Char) : Except PaletteError (Palette α) :=
  match Draft.ofListing text with
  | .error error => .error error
  | .ok draft => draft.build

/-- The line of a named color. -/
def entryLine (precision : Nat) (entry : String × Color α) : List Char :=
  entry.1.toList ++ ' ' :: (entry.2.write precision ++ ['\n'])

/-- The line of an alias. -/
def aliasLine (entry : String × String) : List Char :=
  entry.1.toList ++ " = ".toList ++ entry.2.toList ++ ['\n']

/-- Write the listing of a palette, with the given number of decimals. Aliases follow colors. -/
def listing (precision : Nat) (palette : Palette α) : List Char :=
  palette.entries.flatMap (entryLine precision) ++ palette.aliases.flatMap aliasLine

end Palette

end ColorWords
