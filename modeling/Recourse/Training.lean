import Recourse.Evaluation
import Recourse.Multistage.Refinement
import Recourse.Training.Journal
/-!
Training a policy: in each iteration some trajectories are walked, the cost-to-go functions are
refined along them, and the bound of the problem is computed. Training ends when the bound stays
stable, when an evaluation shows that the policy is good enough, when a limit is reached, or on
request.
-/

namespace Recourse

/-- Where an iteration may be cut off. The chunks of walks and the passes that have begun run to
their end; the others are given up. -/
inductive Moment where
  | begun
  | walked (chunks : Nat)
  | refined (passes : Nat)
  | bounded
  | boundNoted
  | boundSettled
  | valuesNoted
  | counted
  | told
  | sampled (chunks : Nat)
  | reviewed
deriving DecidableEq, Repr

/-- A request from outside that arrives in an iteration: to end before the next one, or at once. An
interrupt at a moment that the iteration does not come to never strikes. -/
inductive Signal where
  | none
  | stop
  | interrupt (moment : Moment)
deriving DecidableEq, Repr

/-- How to train. No evaluation is made if the period of evaluations is `null`. `signal` tells the
request that arrives in an iteration, and `duration` how long each measured span of work takes. -/
structure TrainingPlan (α : Type) where
  workers : Datum α := .int 1
  steps : Datum α := .int 1
  maxIterations : Datum α := .int 10000
  maxStable : Datum α := .int 10000
  maxTime : Datum α
  tolerance : Datum α
  stableTolerance : Datum α
  evaluationPeriod : Datum α := .null
  simulations : Datum α := .int 3000
  percentile : Datum α := .int 95
  signal : Nat → Signal := fun _ => .none
  duration : Nat → α

/-- What training has found so far: per iteration a bound and the values of its trajectories. -/
structure Record (α : Type) where
  bounds : List α
  values : List (List α)
  iteration : Nat
  workers : Datum α
  steps : Datum α
  ending : Option Ending

structure Session (γ α : Type) where
  simulation : Simulation γ α
  record : Record α
  journal : Journal α

/-- Where a run stands between iterations: how many iterations it has made and in how many of them
in a row the bound was stable, the bound before, the time spent, the spans of work measured, and
whether a request to end has arrived. -/
structure Standing (α : Type) where
  done : Nat
  stable : Nat
  previous : Option α
  seconds : α
  spans : Nat
  stopping : Bool

namespace Signal

def isInterrupt : Signal → Bool
  | .interrupt _ => true
  | _ => false

/-- After how many chunks the walks of an iteration break off. -/
def walks? : Signal → Option Nat
  | .interrupt (.walked chunks) => some chunks
  | _ => Option.none

/-- After how many passes refining breaks off. -/
def passes? : Signal → Option Nat
  | .interrupt (.refined passes) => some passes
  | _ => Option.none

/-- After how many chunks the walks of an evaluation break off. -/
def samples? : Signal → Option Nat
  | .interrupt (.sampled chunks) => some chunks
  | _ => Option.none

end Signal

namespace Record

variable {α : Type}

def empty : Record α :=
  { bounds := [], values := [], iteration := 0, workers := .int 1, steps := .int 1, ending := none }

def width (r : Record α) : Nat := (r.values.map List.length).foldl max 0

/-- The names of the columns of the table of results: the trajectories by number, then the bound. -/
def columns (r : Record α) : List String := (List.range r.width).map toString ++ ["db"]

/-- The rows of the table of results, filled up with the unknown number. There have to be as many
bounds as rows, unless there are bounds only. -/
def rows [Numeral α] (r : Record α) : Except (Fault α) (List (List α)) :=
  if r.values.isEmpty then .ok (r.bounds.map ([·]))
  else if r.values.length = r.bounds.length then
    .ok ((r.values.zip r.bounds).map fun (values, bound) =>
      values ++ List.replicate (r.width - values.length) Numeral.unknown ++ [bound])
  else .error (.value .lengths)

end Record

namespace TrainingPlan

variable {α : Type} [Scalar α] [Numeral α]

def evaluationPlan (o : TrainingPlan α) (workers : Datum α) : EvaluationPlan α :=
  { simulations := o.simulations, percentile := o.percentile, workers }

def hasEvaluations (o : TrainingPlan α) : Bool := !o.evaluationPeriod.isNull

def isExhausted (o : TrainingPlan α) (done : Nat) : Except (Fault α) Bool :=
  (Datum.int done).reaches o.maxIterations

/-- A number of iterations that reaches the limit where there is one. -/
def iterationBound (o : TrainingPlan α) : Nat :=
  match o.maxIterations with
  | .int n => n.toNat
  | .real x => match Numeral.truncate? x with
    | some n => n.toNat + 1
    | none => Nat.pow 2 63
  | _ => 1

def isOverdue (o : TrainingPlan α) (seconds : α) : Except (Fault α) Bool :=
  (Datum.real seconds).reaches o.maxTime

def isDue (o : TrainingPlan α) (iteration : Nat) : Except (Fault α) Bool :=
  match o.evaluationPeriod with
  | .null => .ok false
  | .real x =>
    if Scalar.isZero x then .error .zeroDivision else .ok (Numeral.isMultiple (iteration : α) x)
  | d => do
    let period ← d.asWhole
    if period = 0 then throw .zeroDivision
    return (iteration : Int) % period == 0

end TrainingPlan

namespace Standing

variable {α : Type}

def start [Scalar α] (r : Record α) : Standing α :=
  { done := 0, stable := 0, previous := r.bounds.getLast?, seconds := 0, spans := 0,
    stopping := false }

variable [Scalar α] [Numeral α]

/-- Whether a bound differs from the one before by no more than a relative tolerance. Bounds of a
magnitude below one are compared as they are. -/
def isStable (g : Standing α) (tolerance : Datum α) (bound : α) : Except (Fault α) Bool :=
  match g.previous with
  | none => .ok false
  | some b =>
    let change := Scalar.abs (bound - b)
    if 1 < Scalar.abs bound then do
      return decide (change ≤ (← tolerance.asNumber) * Scalar.abs bound)
    else tolerance.reaches (.real change)

def advance (g : Standing α) (tolerance : Datum α) (bound : α) : Except (Fault α) (Standing α) := do
  let stable ← g.isStable tolerance bound
  return { g with stable := if stable then g.stable + 1 else 0, previous := some bound }

def spend (g : Standing α) (seconds : α) : Standing α :=
  { g with seconds := g.seconds + seconds, spans := g.spans + 1 }

def finish (g : Standing α) : Standing α := { g with done := g.done + 1 }

end Standing

namespace Session

variable {γ α β : Type} [Scalar α] [Numeral α]

def new (problem : Multistage α) (source : γ) : Session γ α :=
  { simulation := { problem, source }, record := .empty, journal := [] }

def onProblem (act : Run α (Multistage α) β) : Run α (Session γ α) β :=
  Run.zoom Session.simulation (fun simulation x => { x with simulation }) (Simulation.onProblem act)

def onSource (act : Run α γ β) : Run α (Session γ α) β :=
  Run.zoom Session.simulation (fun simulation x => { x with simulation }) (Simulation.onSource act)

def restart : Run α (Session γ α) Unit := modify fun x => { x with journal := [] }

def tell (note : Note α) : Run α (Session γ α) Unit :=
  modify fun x => { x with journal := x.journal ++ [note] }

def update (change : Record α → Record α) : Run α (Session γ α) Unit :=
  modify fun x => { x with record := change x.record }

/-- Break off at a moment if this is when an interrupt strikes. -/
def pause (signal : Signal) (moment : Moment) : Run α (Session γ α) Unit :=
  Run.breakOff (signal = .interrupt moment)

/-- Keep a bound and the values of the trajectories that led to it: on record, with the problem, and
on record again. -/
def keep (bound : α) (values : List α) (signal : Signal) : Run α (Session γ α) Unit := do
  update fun r => { r with bounds := r.bounds ++ [bound] }
  pause signal .boundNoted
  onProblem (modify fun p => { p with lastBound := some bound })
  pause signal .boundSettled
  update fun r => { r with values := r.values ++ [values] }
  pause signal .valuesNoted

variable [Source γ α] [Inference α]

def evaluate (lp : Solver α) (o : EvaluationPlan α) (limit : Option Nat := none) :
    Run α (Session γ α) (Evaluation α) := fun x =>
  let (r, a) := (Evaluation.run lp o limit).on
    { evaluation := Evaluation.new x.simulation.problem, simulation := x.simulation }
  (r.map fun _ => a.evaluation, { x with simulation := a.simulation })

/-- The value of the policy as an evaluation shows it. -/
def figureOf (e : Evaluation α) : Except (Fault α) (Figure α) :=
  match e.interval, e.exact, e.values with
  | some (low, high), _, _ => .ok (.interval low high)
  | none, some x, _ => .ok (.value x)
  | none, none, some (x :: _) => .ok (.value x)
  | _, _, _ => .error .position

/-- Walk the trajectories of an iteration and refine along them, one after the other however many
workers there are. The answers are the bound that results and the values of the trajectories. -/
def improve (lp : Solver α) (o : TrainingPlan α) (signal : Signal) :
    Run α (Session γ α) (α × List α) := do
  let seed ← onSource (Source.draw Multistage.seedLimit)
  let workers := (← get).record.workers
  let walks ← onProblem
    (Multistage.walkJobs lp (γ := γ) (fun _ => Guide.random) seed o.steps workers signal.walks?)
  onProblem (Multistage.refineAll lp walks signal.passes?)
  let bound ← onProblem (Multistage.computeBound lp)
  pause signal .bounded
  return (bound, walks.map Trajectory.value)

def figure (o : TrainingPlan α) (values : List α) : Except (Fault α) (Figure α) := do
  if ← o.steps.exceeds (.int 1) then
    let (low, high) ← Evaluation.intervalOf values o.percentile
    return .interval low high
  match values with
  | x :: _ => return .value x
  | [] => throw .position

/-- An iteration up to the point where it is told of. -/
def count (lp : Solver α) (o : TrainingPlan α) (g : Standing α) (signal : Signal) :
    Run α (Session γ α) (α × Standing α) := do
  let (bound, values) ← improve lp o signal
  keep bound values signal
  let figure ← Run.ofExcept (figure o values)
  let g ← Run.ofExcept (g.advance o.stableTolerance bound)
  update fun r => { r with iteration := r.iteration + 1 }
  pause signal .counted
  let seconds := o.duration g.spans
  let g := { (g.spend seconds).finish with stopping := g.stopping || signal = .stop }
  tell (.iteration { iteration := (← get).record.iteration, bound, figure, seconds })
  pause signal .told
  return (bound, g)

/-- Evaluate if an evaluation is due. The answer tells whether it shows that the policy is good
enough. -/
def review (lp : Solver α) (o : TrainingPlan α) (bound : α) (g : Standing α)
    (signal : Signal) : Run α (Session γ α) (Bool × Standing α) := do
  let iteration := (← get).record.iteration
  if !(← Run.ofExcept (o.isDue iteration)) then return (false, g)
  let e ← evaluate lp (o.evaluationPlan (← get).record.workers) signal.samples?
  let seconds := o.duration g.spans
  let figure ← Run.ofExcept (figureOf e)
  match e.gap with
  | none => throw .position
  | some gap =>
    tell (.evaluation { iteration, bound, figure, seconds } gap)
    pause signal .reviewed
    let p := (← get).simulation.problem
    let good ← Run.ofExcept (e.converged p o.tolerance)
    return (good, g.spend seconds)

/-- What an iteration does as long as no interrupt strikes. -/
def proceed (lp : Solver α) (o : TrainingPlan α) (g : Standing α) (signal : Signal) :
    Run α (Session γ α) (Option Ending × Standing α) := do
  let (bound, g) ← count lp o g signal
  if ← Run.ofExcept ((Datum.int g.stable).reaches o.maxStable) then return (some .converged, g)
  let (good, g) ← review lp o bound g signal
  return (if good then some .converged else none, g)

/-- One iteration. The answer is where the run stands after it, and how the run ends if it does. An
interrupt ends the run where it strikes, and what was done by then stays done. -/
def iteration (lp : Solver α) (o : TrainingPlan α) (g : Standing α) (signal : Signal) :
    Run α (Session γ α) (Option Ending × Standing α) :=
  Run.interruptible signal.isInterrupt (some .interrupted, g) (proceed lp o g signal)

def iterate (lp : Solver α) (o : TrainingPlan α) : Nat → Standing α → Run α (Session γ α) Ending
  | 0, _ => pure .iterationLimit
  | n + 1, g => do
    let signal := o.signal ((← get).record.iteration + 1)
    if signal = .interrupt .begun then return .interrupted
    if ← Run.ofExcept (o.isExhausted g.done) then return .iterationLimit
    if ← Run.ofExcept (o.isOverdue g.seconds) then return .timeLimit
    if g.stopping then return .interrupted
    let (ending, g) ← iteration lp o g signal
    match ending with
    | some ending => return ending
    | none => iterate lp o n g

def setUp (o : TrainingPlan α) : Run α (Session γ α) Unit := do
  update fun r => { r with steps := o.steps }
  let workers ← Run.ofExcept (Multistage.usefulWorkers o.steps o.workers)
  update fun r => { r with workers }

def outset (o : TrainingPlan α) : Run α (Session γ α) (Standing α) := do
  onProblem Multistage.prepare
  restart
  setUp o
  let r := (← get).record
  tell (.trainingBegins r.workers r.steps o.percentile)
  if o.hasEvaluations then tell (.evaluationBegins o.simulations o.percentile)
  return .start r

def conclude (o : TrainingPlan α) (ending : Ending) : Run α (Session γ α) Ending := do
  update fun r => { r with ending := some ending }
  tell (.trainingEnds ending o.maxIterations o.maxTime)
  if o.hasEvaluations then tell .evaluationEnds
  return ending

def train (lp : Solver α) (o : TrainingPlan α) : Run α (Session γ α) Ending := do
  let g ← outset o
  let ending ← iterate lp o (o.iterationBound + 1) g
  conclude o ending

/-- Train with a new source made from a seed, or with the source at hand if there is no seed. -/
def trainSeeded (lp : Solver α) (o : TrainingPlan α) (seed : Datum α) :
    Run α (Session γ α) Ending := do
  restart
  onProblem Multistage.prepare
  if !seed.isNull then
    let source : γ ← Run.ofExcept (seeded? seed)
    modify fun x => { x with simulation := { x.simulation with source } }
  train lp o

end Session

end Recourse
