import Recourse.Datum
/-!
What a training run tells about itself while it goes on.
-/

namespace Recourse

inductive Ending where
  | converged
  | iterationLimit
  | timeLimit
  | interrupted
deriving DecidableEq, Repr

inductive Figure (α : Type) where
  | value (x : α)
  | interval (low high : α)

structure Progress (α : Type) where
  iteration : Nat
  bound : α
  figure : Figure α
  seconds : α

inductive Note (α : Type) where
  | trainingBegins (workers steps percentile : Datum α)
  | evaluationBegins (simulations percentile : Datum α)
  | iteration (progress : Progress α)
  | evaluation (progress : Progress α) (gap : α)
  | trainingEnds (ending : Ending) (maxIterations maxTime : Datum α)
  | evaluationEnds

abbrev Journal (α : Type) := List (Note α)

end Recourse
