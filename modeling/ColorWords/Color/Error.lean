/-!
# Color format errors

The causes for which a text is not a color, and their messages.
-/

namespace ColorWords

/-- Why a text is not a color. -/
inductive ColorError where
  | unknownFormat
  | unexpectedCharacters
  | noOpeningParenthesis
  | noClosingParenthesis
  | missingCoordinate
  | malformedHex
  | malformedFloat
  | tooManyCoordinates
deriving DecidableEq

namespace ColorError

/-- The message for the user. -/
def message : ColorError → String
  | unknownFormat => "color format should start with `#`, `oklab()`, or `oklch()`"
  | unexpectedCharacters => "color format should contain only valid ASCII characters"
  | noOpeningParenthesis => "color format should include an opening parenthesis but has none"
  | noClosingParenthesis => "color format should include a closing parenthesis but has none"
  | missingCoordinate => "color format should have 3 coordinates but is missing one"
  | malformedHex => "color format coordinates should be hexadecimal integers but are not"
  | malformedFloat => "color format coordinates should be floating point numbers but are not"
  | tooManyCoordinates => "color format should have 3 coordinates but has more"

/-- The name of the cause. -/
def name : ColorError → String
  | unknownFormat => "UnknownFormat"
  | unexpectedCharacters => "UnexpectedCharacters"
  | noOpeningParenthesis => "NoOpeningParenthesis"
  | noClosingParenthesis => "NoClosingParenthesis"
  | missingCoordinate => "MissingCoordinate"
  | malformedHex => "MalformedHex"
  | malformedFloat => "MalformedFloat"
  | tooManyCoordinates => "TooManyCoordinates"

end ColorError

end ColorWords
