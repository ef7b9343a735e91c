/-!
# Adjectives

Eight families of adjectives in four tiers each. A word is recognized by its shape alone: the
lead letter of a family, a probe letter at a fixed offset and the length of one of the
family's forms, counted in bytes of UTF-8 and without regard to ASCII case. Words of the same
shape therefore read as the adjective, as "dirt" reads as "dark".

The effects of an adjective are exact numbers of hundredths.
-/

namespace ColorWords

/-- A family of adjectives. -/
inductive Family where
  | light
  | dark
  | rich
  | dull
  | bright
  | pale
  | deep
  | weak
deriving DecidableEq

/-- The strength of an adjective: base word, `-er`, `-est` and `-most`. -/
abbrev Tier := Fin 4

namespace Tier

/-- Tiers count from one. -/
def number (tier : Tier) : Nat := tier.val + 1

/-- The tier with the given number, or the nearest one there is. -/
def ofNumber (n : Nat) : Tier := ⟨min (n - 1) 3, by omega⟩

end Tier

/-- The shape, the words and the effects of a family. -/
structure Rule where
  lead : Char
  probeOffset : Nat
  probe : Char
  lengths : Vector Nat 4
  words : Vector String 4
  lightness : Vector Int 4
  saturation : Vector Int 4

namespace Family

/-- All families, in the order in which they are tried. -/
def all : List Family := [light, dark, rich, dull, bright, pale, deep, weak]

/-- The rule of each family. -/
def rule : Family → Rule
  | light =>
    { lead := 'l', probeOffset := 2, probe := 'g'
      lengths := #v[5, 7, 8, 9]
      words := #v["light", "lighter", "lightest", "lightmost"]
      lightness := #v[15, 30, 45, 60]
      saturation := #v[0, 0, 0, 0] }
  | dark =>
    { lead := 'd', probeOffset := 2, probe := 'r'
      lengths := #v[4, 6, 7, 8]
      words := #v["dark", "darker", "darkest", "darkmost"]
      lightness := #v[-15, -30, -45, -60]
      saturation := #v[0, 0, 0, 0] }
  | rich =>
    { lead := 'r', probeOffset := 2, probe := 'c'
      lengths := #v[4, 6, 7, 8]
      words := #v["rich", "richer", "richest", "richmost"]
      lightness := #v[0, 0, 0, 0]
      saturation := #v[10, 25, 45, 70] }
  | dull =>
    { lead := 'd', probeOffset := 2, probe := 'l'
      lengths := #v[4, 6, 7, 8]
      words := #v["dull", "duller", "dullest", "dullmost"]
      lightness := #v[0, 0, 0, 0]
      saturation := #v[-10, -25, -45, -70] }
  | bright =>
    { lead := 'b', probeOffset := 3, probe := 'g'
      lengths := #v[6, 8, 9, 10]
      words := #v["bright", "brighter", "brightest", "brightmost"]
      lightness := #v[15, 30, 45, 60]
      saturation := #v[10, 20, 40, 65] }
  | pale =>
    { lead := 'p', probeOffset := 2, probe := 'l'
      lengths := #v[4, 5, 6, 8]
      words := #v["pale", "paler", "palest", "palemost"]
      lightness := #v[15, 30, 45, 60]
      saturation := #v[-10, -25, -45, -70] }
  | deep =>
    { lead := 'd', probeOffset := 2, probe := 'e'
      lengths := #v[4, 6, 7, 8]
      words := #v["deep", "deeper", "deepest", "deepmost"]
      lightness := #v[-15, -30, -45, -60]
      saturation := #v[10, 25, 45, 70] }
  | weak =>
    { lead := 'w', probeOffset := 2, probe := 'a'
      lengths := #v[4, 6, 7, 8]
      words := #v["weak", "weaker", "weakest", "weakmost"]
      lightness := #v[-15, -30, -45, -60]
      saturation := #v[-10, -25, -45, -70] }

/-- The name of the family. -/
def name : Family → String
  | light => "Light"
  | dark => "Dark"
  | rich => "Rich"
  | dull => "Dull"
  | bright => "Bright"
  | pale => "Pale"
  | deep => "Deep"
  | weak => "Weak"

/-- The word for a tier. -/
def word (family : Family) (tier : Tier) : String := family.rule.words[tier]

/-- Determine whether the family changes lightness. -/
def changesLightness (family : Family) : Bool := family.rule.lightness[(0 : Tier)] != 0

/-- Determine whether the family changes saturation. -/
def changesSaturation (family : Family) : Bool := family.rule.saturation[(0 : Tier)] != 0

end Family

/-- A family with a tier. -/
structure Adjective where
  family : Family
  tier : Tier
deriving DecidableEq

namespace Adjective

/-- The word for the adjective. -/
def word (adjective : Adjective) : String := adjective.family.word adjective.tier

/-- The change of lightness in hundredths. -/
def lightness (adjective : Adjective) : Int := adjective.family.rule.lightness[adjective.tier]

/-- The change of saturation in hundredths. -/
def saturation (adjective : Adjective) : Int := adjective.family.rule.saturation[adjective.tier]

end Adjective

/-! ## Recognition -/

namespace Rule

/-- The lowercase form of an ASCII byte. -/
def lowerByte (byte : UInt8) : UInt8 := if 65 ≤ byte ∧ byte ≤ 90 then byte + 32 else byte

/-- Determine whether the byte at an offset is the letter, in either case. -/
def letterAt (bytes : List UInt8) (offset : Nat) (letter : Char) : Bool :=
  bytes[offset]?.map lowerByte == some letter.toUInt8

/-- The first tier whose form has the given length. -/
def tierOfLength? (rule : Rule) (length : Nat) : Option Tier :=
  (List.finRange 4).find? fun tier => rule.lengths[tier] == length

/-- The tier that the bytes of a word have the shape of. -/
def tier? (rule : Rule) (bytes : List UInt8) : Option Tier :=
  if letterAt bytes 0 rule.lead && letterAt bytes rule.probeOffset rule.probe then
    rule.tierOfLength? bytes.length
  else none

end Rule

namespace Adjective

/-- Recognize the bytes of a word, by the first of the given families with that shape. -/
def ofBytesIn? (families : List Family) (bytes : List UInt8) : Option Adjective :=
  families.findSome? fun family => (family.rule.tier? bytes).map fun tier => ⟨family, tier⟩

/-- Recognize the bytes of a word. -/
def ofBytes? (bytes : List UInt8) : Option Adjective := ofBytesIn? Family.all bytes

/-- Recognize a word. -/
def ofWord? (word : String) : Option Adjective :=
  ofBytes? (word.toList.flatMap String.utf8EncodeChar)

end Adjective

end ColorWords
