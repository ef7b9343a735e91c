import ColorWords.Color
import ColorWords.Scalar.Binary64Text

/-!
# Hashing colors

The hash of a color over floats comes from the bits of its four keys, the same keys that
decide equality.
-/

namespace ColorWords

namespace Color

/-- The bits of the key of a channel. -/
def channelBits (x : Float) : UInt64 := (channelKey x).toBits

/-- The words that a hash is made of. -/
def hashWords (c : Color Float) : List UInt64 :=
  let lab := c.lab.normalized
  [channelBits lab.lightness, channelBits lab.a, channelBits lab.b, channelBits c.alpha]

instance : Hashable (Color Float) where
  hash c := hash c.hashWords

end Color

end ColorWords
