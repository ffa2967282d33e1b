import Recourse.Risk.Measure
/-!
Risk measures as they are chosen: by a name and parameters. A choice is judged only when it is
applied.
-/

namespace Recourse

structure Preference (α : Type) where
  name : String
  parameters : List (String × Datum α)

namespace Preference

variable {α : Type}

def neutral : Preference α := { name := "Expectation", parameters := [] }

def tail (l a : Datum α) : Preference α :=
  { name := "Expectation_AVaR", parameters := [("a", a), ("l", l)] }

def isNeutral (c : Preference α) : Bool := c.name == "Expectation" && c.parameters.isEmpty

variable [Scalar α]

def measure (c : Preference α) : Except (Fault α) (RiskMeasure α) :=
  RiskMeasure.describe? c.name (c.parameters.lookup "a") (c.parameters.lookup "l")

end Preference

end Recourse
