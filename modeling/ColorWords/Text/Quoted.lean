import ColorWords.Text.Printable

/-!
# Quoted text

Text between double quotes for messages. Quotes and backslashes follow a backslash, the common
control characters have a letter, and other characters that do not print on their own become
their code point in hexadecimal. All else stays as it is, single quotes included.
-/

namespace ColorWords

namespace Text

/-- The form of a character between quotes. -/
def escapeChar (c : Char) : List Char :=
  if c = '"' then ['\\', '"']
  else if c = '\\' then ['\\', '\\']
  else if c = '\n' then ['\\', 'n']
  else if c = '\r' then ['\\', 'r']
  else if c = '\t' then ['\\', 't']
  else if c = '\x00' then ['\\', '0']
  else if isPrintable c then [c]
  else '\\' :: 'u' :: '\x7b' :: (Nat.toDigits 16 c.toNat ++ ['\x7d'])

/-- Quote a text. -/
def quoted (text : String) : String :=
  String.ofList ('"' :: (text.toList.flatMap escapeChar ++ ['"']))

end Text

end ColorWords
