import ColorWords.Color.Printer
import ColorWords.Intensity
import ColorWords.Palette.Order

/-!
# Searching for a description

Every intensity is tried with every tuple of candidates, and the first combination with the
least squared distance to the target wins. Combinations are ordered by the code of the
intensity and then by the number of the tuple, whose digits in the base of the number of
candidates are positions of candidates, the first digit counting least.

A tuple is mixed once for all intensities, and its candidates are collected in a selection that
all tuples share. Tuples are numbered with 64 bits, so of more tuples than that only the first
are tried. Room for the selection is made beforehand, and a search fails if there cannot be enough.
-/

namespace ColorWords

/-- Why a search fails. -/
inductive SearchError where
  | selectionTooLong
deriving DecidableEq

namespace SearchError

/-- The error message. -/
def message : SearchError → String
  | selectionTooLong => "capacity overflow"

end SearchError

/-- The digits of a number in the given base, the least significant first. -/
def digits (base length n : Nat) : List Nat :=
  (List.range length).map fun i => n / base.pow i % base

/-- A combination of an intensity and candidates, with its squared distance to the target. -/
structure Match (α : Type) where
  intensity : Intensity
  indices : List Nat
  distance : α

/-- The description of a match, given the names of the candidates. -/
def Match.text {α : Type} (found : Match α) (names : Array String) : String :=
  found.intensity.phrase ++
    String.intercalate " " (found.indices.map fun i => names.getD i "")

namespace Search

variable {α : Type} [Scalar α]

/-- Append the candidates at the given number of digits of `n` to a selection. -/
def selectFrom (candidates selection : Array (Color α)) : Nat → Nat → Array (Color α)
  | 0, _ => selection
  | length + 1, n =>
    selectFrom candidates (selection.push (candidates.getD (n % candidates.size) Color.neutral))
      length (n / candidates.size)

/-- Refill a selection with the candidates of the tuple with number `n`. -/
def select (candidates : Array (Color α)) (length n : Nat) (selection : Array (Color α)) :
    Array (Color α) :=
  selectFrom candidates (selection.shrink 0) length n

/-- The largest number of tuples. -/
def maxTuples : Nat := 0xffffffffffffffff

/-- The largest number of colors in a selection. A color has 32 bytes, and the bytes of a selection
are numbered with 63 bits. -/
def maxSelection : Nat := 0x3ffffffffffffff

/-- The number of tuples to try, for the given number of candidates. -/
def tupleCount (candidates length : Nat) : Nat := min (candidates.pow length) maxTuples

/-- Append the mixes of the given number of tuples, the first of which has the number `n`. One
selection is refilled for each of them. -/
def mixFrom (candidates : Array (Color α)) (length : Nat) :
    Nat → Nat → Array (Color α) → Array (Color α) → Array (Color α)
  | 0, _, _, mixes => mixes
  | count + 1, n, selection, mixes =>
    let selection := select candidates length n selection
    mixFrom candidates length count (n + 1) selection (mixes.push (Color.mix selection.toList))

/-- The mix of every tuple of the given length. -/
def mixes (candidates : Array (Color α)) (length : Nat) : Array (Color α) :=
  mixFrom candidates length (tupleCount candidates.size length) 0 #[] #[]

variable [GamutMap α]

/-- The intensity and the mix with number `i`, where the mix varies fastest. -/
def combination (count : Nat) (i : Fin (Intensity.count * count)) : Intensity × Fin count :=
  (⟨⟨i / count, Nat.div_lt_of_lt_mul (Nat.lt_of_lt_of_eq i.isLt (Nat.mul_comm ..))⟩⟩,
    ⟨i % count, Nat.mod_lt _ (Nat.pos_of_mul_pos_left i.pos)⟩)

/-- The squared distance between the target and combination `i`. -/
@[inline] def score (mixes : Array (Color α)) (target : Color α)
    (i : Fin (Intensity.count * mixes.size)) : α :=
  let (intensity, n) := combination mixes.size i
  (intensity.apply mixes[n]).distanceSquared target

/-- The best combination of intensities with tuples of the given candidates. -/
def best? (candidates : Array (Color α)) (target : Color α) (length : Nat) : Option (Match α) :=
  let mixes := mixes candidates length
  (leastIndex? (Intensity.count * mixes.size) (score mixes target)).map fun (i, distance) =>
    let (intensity, n) := combination mixes.size i
    ⟨intensity, digits candidates.size length n, distance⟩

end Search

namespace Palette

variable {α : Type} [Scalar α] [ColorModel α]

/-- The colors that descriptions draw from, being the named colors with any alpha by hue. -/
def candidates (palette : Palette α) : List (Color α) := palette.byHue.map Prod.snd

/-- The names of the candidates. -/
def candidateNames (palette : Palette α) : List String := palette.byHue.map Prod.fst

variable [GamutMap α]

/-- Search for the combination nearest to the target. At least one color is mixed. -/
def search? (palette : Palette α) (target : Color α) (length : Nat) :
    Except SearchError (Option (Match α)) :=
  let candidates := palette.candidates.toArray
  if candidates.isEmpty then .ok none
  else
    let length := max length 1
    if Search.maxSelection < length then .error .selectionTooLong
    else .ok (Search.best? candidates target length)

/-- Describe the target, and remark how far the description is from it or that there is nothing to
describe it with. -/
def describe [Numeral α] (palette : Palette α) (target : Color α) (length : Nat) :
    Except SearchError (String × List Notice) :=
  (palette.search? target length).map fun
    | some found =>
      let description := found.text palette.candidateNames.toArray
      let distance := String.ofList (Numeral.write found.distance)
      (description, [.described target.text description distance])
    | none => ("", [.noCandidates target.text])

end Palette

end ColorWords
