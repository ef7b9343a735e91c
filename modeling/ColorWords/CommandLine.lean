import ColorWords.Color.Reader
import ColorWords.Description
import ColorWords.Palette.Standard
import ColorWords.Search

/-!
# The command line

Words describe a color, and the option `--match` describes a color in words. The result of a
run is a value: what goes to the two output streams, and the exit code. A search that fails ends
the run without a result.
-/

namespace ColorWords

namespace CommandLine

/-- Why a mix count is not a number. -/
inductive CountError where
  | empty
  | invalidDigit
  | overflow
deriving DecidableEq

/-- The largest mix count. -/
def maxCount : Nat := 0xffffffffffffffff

/-- Read digits, with what the digits before them amount to. The first character that goes
wrong decides. -/
def readCountFrom (n : Nat) : List Char → Except CountError Nat
  | [] => .ok n
  | c :: rest =>
    if !c.isDigit then .error .invalidDigit
    else
      let n := 10 * n + (c.toNat - '0'.toNat)
      if maxCount < n then .error .overflow else readCountFrom n rest

/-- Read a mix count. A plus sign may stand before its digits. -/
def readCount : List Char → Except CountError Nat
  | [] => .error .empty
  | '+' :: c :: rest => readCountFrom 0 (c :: rest)
  | digits => readCountFrom 0 digits

/-- Why arguments are not a request. -/
inductive Failure where
  | missingColor
  | color (cause : ColorError)
  | count (cause : CountError)
deriving DecidableEq

/-- How to call the program. -/
def usage : String :=
  "usage: describe <words>...\n       describe --match <color> [<mix-count>]"

namespace CountError

/-- The name of the cause. -/
def name : CountError → String
  | empty => "Empty"
  | invalidDigit => "InvalidDigit"
  | overflow => "PosOverflow"

end CountError

namespace Failure

/-- The cause as the error message shows it. -/
def detail : Failure → String
  | missingColor => Text.quoted usage
  | color cause => cause.name
  | count cause => "ParseIntError \x7b kind: " ++ cause.name ++ " \x7d"

/-- The error message. -/
def message (failure : Failure) : String :=
  "Error: Custom \x7b kind: InvalidInput, error: " ++ failure.detail ++ " \x7d"

end Failure

/-- What a run leaves behind. -/
structure Outcome where
  stdout : String
  stderr : String
  code : UInt32
deriving DecidableEq

namespace Outcome

/-- A run that prints a line. -/
def success (line : String) : Outcome := ⟨line ++ "\n", "", 0⟩

/-- A run that fails. -/
def failure (failure : Failure) : Outcome := ⟨"", failure.message ++ "\n", 1⟩

end Outcome

/-- The exit code of a run without an outcome. -/
def failureCode : UInt32 := 101

/-- What the arguments ask for. -/
inductive Request (α : Type) where
  | help
  | color (words : String)
  | words (target : Color α) (length : Nat)

variable {α : Type} [Scalar α] [Numeral α] [ColorModel α]

/-- Read the arguments of the option for matching. The color is read before the count. -/
def readMatch : List String → Except Failure (Request α)
  | [] => .error .missingColor
  | text :: rest =>
    match Color.read text.toList with
    | .error cause => .error (.color cause)
    | .ok target =>
      match rest with
      | [] => .ok (.words target 1)
      | count :: _ =>
        match readCount count.toList with
        | .error cause => .error (.count cause)
        | .ok length => .ok (.words target length)

/-- Read the arguments. -/
def readArguments : List String → Except Failure (Request α)
  | [] => .ok .help
  | first :: rest =>
    if first = "-h" ∨ first = "--help" then .ok .help
    else if first = "--match" then readMatch rest
    else .ok (.color (String.intercalate " " (first :: rest)))

variable [GamutMap α]

/-- Answer a request with a palette. -/
def answer (palette : Palette α) : Request α → Except SearchError String
  | .help => .ok usage
  | .color words =>
    let color := palette.colorOf words
    .ok (color.hexText ++ "  " ++ color.text)
  | .words target length => (palette.describe target length).map Prod.fst

/-- Run the program with the given arguments. -/
def run (palette : Palette α) (arguments : List String) : Except SearchError Outcome :=
  match readArguments (α := α) arguments with
  | .error failure => .ok (.failure failure)
  | .ok request => (answer palette request).map .success

end CommandLine

end ColorWords
