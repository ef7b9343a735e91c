import ColorWords.Color
import ColorWords.Color.Error
import ColorWords.Text.Blank

/-!
# Reading colors

Colors are written in hashed hexadecimal notation with three or six digits, or as one of the
functions `oklab` and `oklch` with three coordinates and an optional alpha after a slash.
White space around the text and the case of ASCII letters do not matter.

Each reader reports the first check that fails. The numbers inside the parentheses are read
by `Numeral.read?`, so the format is independent of what counts as a number.
-/

namespace ColorWords

namespace Color

/-! ## Hashed notation -/

/-- The number of bytes that a text takes up. -/
def byteLength (text : List Char) : Nat := text.foldr (fun c length => c.utf8Size + length) 0

/-- Take the characters that make up the first `size` bytes, unless they end inside one. -/
def takeBytes? : Nat → List Char → Option (List Char × List Char)
  | 0, rest => some ([], rest)
  | _ + 1, [] => none
  | size + 1, c :: rest =>
    if c.utf8Size ≤ size + 1 then
      (takeBytes? (size + 1 - c.utf8Size) rest).map fun (taken, rest) => (c :: taken, rest)
    else none

/-- The value of a hexadecimal digit. -/
def hexValue? (c : Char) : Option Nat :=
  if '0' ≤ c ∧ c ≤ '9' then some (c.toNat - '0'.toNat)
  else if 'a' ≤ c ∧ c ≤ 'f' then some (c.toNat - 'a'.toNat + 10)
  else if 'A' ≤ c ∧ c ≤ 'F' then some (c.toNat - 'A'.toNat + 10)
  else none

/-- Read hexadecimal digits, with what the digits before them amount to. -/
def hexFrom? (n : Nat) : List Char → Option Nat
  | [] => some n
  | c :: rest =>
    match hexValue? c with
    | some digit => hexFrom? (16 * n + digit) rest
    | none => none

/-- Read a hexadecimal number. A plus sign may stand before its digits. -/
def hex? : List Char → Option Nat
  | '+' :: c :: rest => hexFrom? 0 (c :: rest)
  | digits => hexFrom? 0 digits

/-- Read one channel of the given number of bytes. A single digit stands for two equal ones. -/
def readChannel (width : Nat) (text : List Char) : Except ColorError (UInt8 × List Char) :=
  match takeBytes? width text with
  | none => .error .unexpectedCharacters
  | some (digits, rest) =>
    match hex? digits with
    | none => .error .malformedHex
    | some n => .ok (if width = 1 then (n * 17).toUInt8 else n.toUInt8, rest)

/-- Read what follows the hash sign. -/
def readHashed (text : List Char) : Except ColorError (RGB UInt8) :=
  let read (width : Nat) : Except ColorError (RGB UInt8) := do
    let (red, text) ← readChannel width text
    let (green, text) ← readChannel width text
    let (blue, _) ← readChannel width text
    return ⟨red, green, blue⟩
  match byteLength text with
  | 3 => read 1
  | 6 => read 2
  | _ => .error .unexpectedCharacters

/-! ## Functional notation -/

/-- Drop the given start of a text. -/
def dropWord? : List Char → List Char → Option (List Char)
  | [], text => some text
  | _ :: _, [] => none
  | c :: word, d :: text => if c = d then dropWord? word text else none

/-- Read the name of the function, which tells whether coordinates are polar. -/
def readFunction? (text : List Char) : Option (Bool × List Char) :=
  match dropWord? "oklab".toList text with
  | some rest => some (false, rest)
  | none => (dropWord? "oklch".toList text).map fun rest => (true, rest)

/-- Read what stands between the parentheses, the closing one being last. -/
def readBody (text : List Char) : Except ColorError (List Char) :=
  match Text.trimStart text with
  | '(' :: rest =>
    if rest.getLast? = some ')' then .ok rest.dropLast else .error .noClosingParenthesis
  | _ => .error .noOpeningParenthesis

variable {α : Type} [Scalar α] [Numeral α]

/-- Read a number. -/
def readNumber (text : List Char) : Except ColorError α :=
  match Numeral.read? text with
  | some x => .ok x
  | none => .error .malformedFloat

/-- Read the next coordinate, if there is one. -/
def readCoordinate : Option (List Char) → Except ColorError α
  | none => .error .missingCoordinate
  | some text => readNumber text

/-- Read exactly three coordinates. -/
def readCoordinates (text : List Char) : Except ColorError (Triple α) := do
  let fields := Text.fields text
  let x ← readCoordinate fields[0]?
  let y ← readCoordinate fields[1]?
  let z ← readCoordinate fields[2]?
  if 3 < fields.length then .error .tooManyCoordinates else return ⟨x, y, z⟩

/-- Read alpha, which is one if there is no slash. -/
def readAlpha : Option (List Char) → Except ColorError α
  | none => .ok 1.0
  | some text =>
    let text := Text.trim text
    if text.isEmpty then .error .missingCoordinate else readNumber text

/-- The Oklab point for the given coordinates. A polar hue that is no number counts as none. -/
def labOfCoordinates [ColorModel α] (isPolar : Bool) (c : Triple α) : Lab α :=
  if isPolar then ColorModel.ofPolar ⟨c.x, c.y, if Scalar.isNumber c.z then some c.z else none⟩
  else ⟨c.x, c.y, c.z⟩

/-- Read a color in functional notation. -/
def readFunctional [ColorModel α] (text : List Char) : Except ColorError (Color α) := do
  let some (isPolar, rest) := readFunction? text | .error .unknownFormat
  let body ← readBody rest
  let (body, alpha) :=
    match Text.splitOnce? (· == '/') body with
    | some (body, alpha) => (body, some alpha)
    | none => (body, none)
  let coordinates ← readCoordinates body
  let alpha ← readAlpha alpha
  return make (labOfCoordinates isPolar coordinates) alpha

/-- Read a color. -/
def read [ColorModel α] (text : List Char) : Except ColorError (Color α) :=
  match (Text.trim text).map Char.toLower with
  | '#' :: digits => (readHashed digits).map ofBytes
  | text => readFunctional text

end Color

end ColorWords
