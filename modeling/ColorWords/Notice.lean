import ColorWords.Adjective
import ColorWords.Text.Quoted

/-!
# Notices

What the library has to say besides its results. None of it changes a result.
-/

namespace ColorWords

/-- A remark about the input or about a result. -/
inductive Notice where
  | adjectiveName (name : String) (adjective : Adjective)
  | unknownName (name : String)
  | noCandidates (target : String)
  | described (target description distance : String)
deriving DecidableEq

namespace Notice

/-- The wording of the remark. -/
def message : Notice → String
  | adjectiveName name adjective =>
    "color name " ++ Text.quoted name ++ " reads as adjective Adjective \x7b family: " ++
      adjective.family.name ++ ", tier: " ++ toString adjective.tier.number ++
      " \x7d and cannot be described"
  | unknownName name => "unknown color name " ++ Text.quoted name ++ " counts as neutral color"
  | noCandidates target => "palette has no colors to describe " ++ target ++ " with"
  | described target description distance =>
    "described " ++ target ++ " as " ++ Text.quoted description ++ " at squared distance " ++
      distance

/-- How much the remark matters. -/
def level : Notice → String
  | adjectiveName .. => "WARN"
  | unknownName .. => "TRACE"
  | noCandidates .. => "WARN"
  | described .. => "DEBUG"

/-- The remark as a line of a log. -/
def text (notice : Notice) : String := notice.level ++ " " ++ notice.message

end Notice

end ColorWords
