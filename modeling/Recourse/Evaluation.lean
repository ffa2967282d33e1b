import Recourse.Multistage.Jobs
import Recourse.Multistage.Setup
import Recourse.Random.Twister
import Recourse.Datum.Stretch
import Recourse.Statistics.Interval
/-!
Evaluating the policy that the cuts give: by walking all paths, or by walking some at random. The
gap compares the value of the policy with the bound of the problem.
-/

namespace Recourse

/-- How a policy is evaluated: `simulations` walks at random, or all paths if it is `-1`. -/
structure EvaluationPlan (α : Type) where
  simulations : Datum α
  percentile : Datum α := .int 95
  workers : Datum α := .int 1

/-- The results of an evaluation: the values of the walks and, according to the kind of evaluation,
an interval for their mean or the exact mean. The number of paths is `null` before the first
evaluation, and what was asked for where the paths are walked at random. -/
structure Evaluation (α : Type) where
  bound : Option α
  values : Option (List α)
  interval : Option (α × α)
  exact : Option α
  gap : Option α
  pathCount : Datum α
  paths : Option (List ScenarioPath)

structure Assessment (γ α : Type) where
  evaluation : Evaluation α
  simulation : Simulation γ α

namespace EvaluationPlan

variable {α : Type} [Scalar α] [Numeral α]

def isExhaustive (o : EvaluationPlan α) : Bool := o.simulations.isWhole (-1)

/-- Whether the values are not a sample with an interval: all of them, or a single one. -/
def isPlain (o : EvaluationPlan α) : Bool := o.isExhaustive || o.simulations.isWhole 1

end EvaluationPlan

namespace Evaluation

variable {γ α : Type} [Scalar α] [Numeral α]

def new (p : Multistage α) : Evaluation α :=
  { bound := p.lastBound, values := none, interval := none, exact := none, gap := none
    pathCount := .null, paths := none }

def intervalOf [Inference α] (xs : List α) (percentile : Datum α) : Except (Fault α) (α × α) := do
  if xs.length = 1 then throw .singleObservation
  Statistics.interval xs (← Statistics.shareOf percentile)

/-- The value that is compared with the bound: the end of the interval farther from it, the exact
mean, or the single value. -/
def comparison (e : Evaluation α) (sense : Sense) : Option α :=
  match e.interval, sense with
  | some (_, high), .minimize => some high
  | some (low, _), .maximize => some low
  | none, _ => match e.exact with
    | some x => some x
    | none => e.values.bind List.head?

/-- The relative distance to the bound, or `-1` where it says nothing: if the problem is risk
averse, or the bound is missing or zero. -/
def gapOf (e : Evaluation α) (p : Multistage α) : Except (Fault α) α :=
  if p.riskAverse then .ok (-1)
  else match e.bound with
    | none => .ok (-1)
    | some b =>
      if Scalar.isZero b then .ok (-1)
      else match e.comparison p.sense with
        | some x => .ok (Scalar.abs ((x - b) / b))
        | none => .error .position

/-- Whether a gap is not larger than a tolerance. A gap that statistics computed is compared with a
list too, if there is a single entry in it, and has no order beside a text. -/
def gapWithin (e : Evaluation α) (gap : α) (tolerance : Datum α) : Except (Fault α) Bool :=
  match tolerance, e.interval.isSome || e.exact.isSome with
  | .text _, true => .error .incomparable
  | .list _, true =>
    if tolerance.leaves.length = 1 then Datum.allBelow (.real gap) tolerance
    else .error (.value .lengths)
  | _, _ => tolerance.reaches (.real gap)

/-- Whether the policy is optimal up to a tolerance: the gap is not larger, or the interval covers
the bound. -/
def converged (e : Evaluation α) (p : Multistage α) (tolerance : Datum α) :
    Except (Fault α) Bool := do
  match e.gap with
  | some gap => if 0 ≤ gap then if ← e.gapWithin gap tolerance then return true
  | none => pure ()
  match e.interval, p.riskAverse, e.bound with
  | some (low, high), false, some b => return decide (low ≤ b) && decide (b ≤ high)
  | some _, false, none => throw (.kind .number)
  | _, _, _ => return false

/-! ### Running an evaluation -/

def record (change : Evaluation α → Evaluation α) : Run α (Assessment γ α) Unit :=
  modify fun x => { x with evaluation := change x.evaluation }

def onProblem {β : Type} (act : Run α (Multistage α) β) : Run α (Assessment γ α) β :=
  Run.zoom Assessment.simulation (fun simulation x => { x with simulation })
    (Simulation.onProblem act)

def begin (o : EvaluationPlan α) : Run α (Assessment γ α) Unit := do
  let p := (← get).simulation.problem
  let paths := if o.isExhaustive then some p.paths else none
  record fun e => { e with
    bound := p.lastBound
    interval := none
    exact := none
    gap := none
    paths
    pathCount := match paths with
      | some ps => .int ps.length
      | none => o.simulations }

def guide [Source γ α] (paths : Option (List ScenarioPath)) (job : Int) : Guide γ α :=
  match paths with
  | some paths => Guide.along (paths.getD job.toNat [])
  | none => Guide.random

def weigh [Inference α] (o : EvaluationPlan α) (paths : Option (List ScenarioPath))
    (values : List α) :
    Run α (Assessment γ α) Unit := do
  record fun e => { e with values := some values }
  let p := (← get).simulation.problem
  match paths with
  | none => pure ()
  | some paths =>
    let weights ← Run.ofExcept (paths.mapM p.weight)
    record fun e => { e with exact := some (Scalar.dot values weights) }
  if !o.isPlain then
    let interval ← Run.ofExcept (intervalOf values o.percentile)
    record fun e => { e with interval := some interval }
  let gap ← Run.ofExcept ((← get).evaluation.gapOf p)
  record fun e => { e with gap := some gap }

variable [Source γ α] [Inference α]

def explore (lp : Solver α) (o : EvaluationPlan α) (limit : Option Nat := none) :
    Run α (Assessment γ α) (Option (List ScenarioPath) × List α) := do
  let seed ← Run.zoom (fun x => x.simulation.source)
    (fun source x => { x with simulation := { x.simulation with source } })
    (Source.draw Multistage.seedLimit)
  let e := (← get).evaluation
  let workers ← Run.ofExcept (Multistage.usefulWorkers o.workers e.pathCount)
  let walks ← onProblem
    (Multistage.walkJobs lp (γ := γ) (guide e.paths) seed e.pathCount workers limit)
  return (e.paths, walks.map Trajectory.value)

def conclude (lp : Solver α) (o : EvaluationPlan α) (limit : Option Nat := none) :
    Run α (Assessment γ α) Unit := do
  let (paths, values) ← explore lp o limit
  weigh o paths values

/-- Evaluate with the source at hand. The walks break off behind a number of chunks if there is a
limit. -/
def run (lp : Solver α) (o : EvaluationPlan α) (limit : Option Nat := none) :
    Run α (Assessment γ α) Unit := do
  onProblem Multistage.prepare
  begin o
  conclude lp o limit

/-- Evaluate with a new source made from a seed, or with the source at hand if there is no seed. -/
def runSeeded (lp : Solver α) (o : EvaluationPlan α) (seed : Datum α) :
    Run α (Assessment γ α) Unit := do
  onProblem Multistage.prepare
  begin o
  if !seed.isNull then
    let source : γ ← Run.ofExcept (seeded? seed)
    modify fun x => { x with simulation := { x.simulation with source } }
  conclude lp o

end Evaluation

end Recourse
