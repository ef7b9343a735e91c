/-!
# Blank characters

The characters with the Unicode property White_Space, and the ways to cut text: trimming its
ends, splitting it once, and taking its runs of characters of a kind.
-/

namespace ColorWords

namespace Text

/-- The ranges of code points with the property White_Space. -/
def blankRanges : List (Nat × Nat) :=
  [(0x9, 0xd), (0x20, 0x20), (0x85, 0x85), (0xa0, 0xa0), (0x1680, 0x1680), (0x2000, 0x200a),
    (0x2028, 0x2029), (0x202f, 0x202f), (0x205f, 0x205f), (0x3000, 0x3000)]

/-- Determine whether the character is white space. -/
def isBlank (c : Char) : Bool :=
  blankRanges.any fun range => decide (range.1 ≤ c.toNat) && decide (c.toNat ≤ range.2)

/-- Drop leading white space. -/
def trimStart (text : List Char) : List Char := text.dropWhile isBlank

/-- Drop leading and trailing white space. -/
def trim (text : List Char) : List Char := (trimStart (trimStart text).reverse).reverse

/-- Split at the first separator, dropping it. -/
def splitOnce? (separates : Char → Bool) : List Char → Option (List Char × List Char)
  | [] => none
  | c :: rest =>
    if separates c then some ([], rest)
    else (splitOnce? separates rest).map fun (before, after) => (c :: before, after)

/-- The maximal runs of characters of a kind. -/
def runs (belongs : Char → Bool) (text : List Char) : List (List Char) :=
  (text.splitOnP fun c => !belongs c).filter fun piece => !piece.isEmpty

/-- The fields of a text, which white space separates. -/
def fields (text : List Char) : List (List Char) := runs (fun c => !isBlank c) text

/-- The lines of a text, without their line feeds. -/
def lines (text : List Char) : List (List Char) := text.splitOn '\n'

end Text

end ColorWords
