import ColorWords.Proofs.Scalar.Exact

/-!
# The real numbers as scalars

Over the real numbers roots, powers and angles are exact as well, so every definition of the
library can be read as the mathematical function that floats approximate.
-/

namespace ColorWords

/-- The elementary functions of real numbers. The cube root is odd. -/
noncomputable instance Elementary.instReal : Elementary ℝ where
  squareRoot := Real.sqrt
  cubeRoot x := SignType.sign x * |x| ^ (1 / 3 : ℝ)
  power x y := x ^ y
  euclidean x y := Real.sqrt (x * x + y * y)
  bearing b a := Complex.arg ⟨a, b⟩ * (180 / Real.pi)
  cosine degrees := Real.cos (degrees * (Real.pi / 180))
  sine degrees := Real.sin (degrees * (Real.pi / 180))

end ColorWords
