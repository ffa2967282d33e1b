import Mathlib.Data.Rat.Floor
import Recourse.Proofs.Scalar
import Recourse.Random.Source
import Recourse.Statistics.Interval

/-! Fractions as the numbers of the library. They are exact and they compute, so statements about
all ordered fields are tried out on them. -/

namespace Recourse

/-- Whole numbers are the only texts that spell a fraction. -/
instance : Numeral ℚ where
  read? s := s.toInt?.map fun n => n
  scan? s := s.toInt?.map fun n => n
  write x := toString x.num ++ "/" ++ toString x.den
  unknown := 0
  ofInt? n := some n
  ofQuotient? m n := some (m / n)
  compareInt n x := some (if (n : ℚ) < x then .lt else if x < n then .gt else .eq)
  truncate? x := some (if 0 ≤ x then ⌊x⌋ else ⌈x⌉)
  isMultiple x y := (x / y).den == 1

/-- What is drawn follows a counter. -/
instance : Source ℕ ℚ where
  uniform n := ((n % 16 : ℕ) / 16, n + 1)
  below k n := (n % k, n + 1)
  ofSeed n := n
  ofSeeds := List.sum

/-- Roots and quantiles are rough. -/
instance : Inference ℚ where
  sqrt x := Nat.sqrt ⌊x⌋₊
  studentQuantile _ _ := 2

end Recourse
