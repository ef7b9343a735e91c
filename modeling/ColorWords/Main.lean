import ColorWords.CommandLine
import ColorWords.Scalar.Binary64Text

/-!
# The program

Runs the command line on the standard palette over 64-bit floats.
-/

/-- Print the outcome of a run and return its exit code. -/
def main (arguments : List String) : IO UInt32 := do
  let palette : ColorWords.Palette Float := ColorWords.Palette.standard
  match ColorWords.CommandLine.run palette arguments with
  | .ok outcome =>
    IO.print outcome.stdout
    IO.eprint outcome.stderr
    return outcome.code
  | .error failure =>
    IO.eprintln failure.message
    return ColorWords.CommandLine.failureCode
