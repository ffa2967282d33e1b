import Recourse.Datum.Grid
import Recourse.Run
/-!
Confidence intervals for a mean: the mean of the observations plus and minus a critical value times
the standard error. The observations may come as they were given: a list of numbers, which may be
nested to an array, and a percentage.
-/

namespace Recourse

/-- What statistics needs of the numbers: square roots, and the quantile of Student's distribution
at a level for a number of degrees of freedom. -/
class Inference (α : Type) where
  sqrt : α → α
  studentQuantile : (level : α) → (degrees : Int) → α

namespace Statistics

variable {α : Type} [Scalar α]

def mean (xs : List α) : α := Scalar.total xs / (xs.length : α)

/-- The sample variance, with one observation less in the denominator. -/
def variance (xs : List α) : α :=
  let m := mean xs
  Scalar.total (xs.map fun x => (x - m) * (x - m)) / Scalar.ofInt ((xs.length : Int) - 1)

variable [Inference α]

def standardError (n : Nat) (xs : List α) : α :=
  Inference.sqrt (variance xs) / Inference.sqrt (n : α)

/-- The level of the quantile for a two-sided interval that covers a share of the probability. -/
def level (share : α) : α := 1 - (1 - share) / ((2 : Nat) : α)

def intervalOf (n : Nat) (xs : List α) (share : α) : α × α :=
  let m := mean xs
  let se := standardError n xs
  let cv := Inference.studentQuantile (level share) ((n : Int) - 1)
  (m - cv * se, m + cv * se)

/-- The interval that covers the mean with a share of the probability. A single observation has
none. -/
def interval (xs : List α) (share : α) : Except (Fault α) (α × α) :=
  if xs.length = 1 then .error .singleObservation else .ok (intervalOf xs.length xs share)

/-! ### Observations as data -/

variable [Numeral α]

def shareOf : Datum α → Except (Fault α) α
  | .int n => match Numeral.ofQuotient? n 100 with
    | some x => .ok x
    | none => .error .overflow
  | d => d.asNumber.map (· / ((100 : Nat) : α))

def isPlain (d : Datum α) : Bool := d.isText || d.number?.isSome

/-- The numbers of an array. Texts among them cannot be added up. -/
def numbersOf (d : Datum α) : Except (Fault α) (List α) :=
  if d.shape?.isNone then .error (.value .notNumeric)
  else if !d.leaves.all isPlain then .error (.kind .number)
  else if d.leaves.any Datum.isText then .error .incomparable
  else Datum.reals d.leaves

/-- The interval that covers the mean of observations with a percentage of the probability. An array
counts as many observations as it has items. -/
def intervalOfData (observations percentage : Datum α) :
    Except (Fault α) (α × α) := do
  match observations with
  | .list [_] => throw .singleObservation
  | .list items =>
    let xs ← numbersOf observations
    return intervalOf items.length xs (← shareOf percentage)
  | _ => throw (.kind .number)

end Statistics

end Recourse
