import Recourse.Stage.Setup
/-!
Solving a stage model: the incoming values and a scenario are entered, the stored cuts are attached,
and the program is handed to the solver.
-/

namespace Recourse

/-- The outcomes of all scenarios of a stage: values, and prices of the links. -/
structure Outcomes (α : Type) where
  values : List α
  gradients : List (List α)

namespace Stage

variable {α : Type} [Scalar α] [Numeral α]

/-! ### Entering right-hand sides -/

def enterSample (k : Int) : RandomRhs α → Edit α Unit
  | .single row samples => do
    setRhs row (← Run.ofExcept (entryFrom samples k))
  | .block rows samples => do
    setRhsAll rows (← Run.ofExcept (entryFrom samples k))

def enterScenario (k : Datum α) : Edit α Unit := do
  let s ← get
  s.random.forM fun r => do enterSample (← Run.ofExcept k.asWhole) r

def enterIncoming (state : List α) (noise : Option (List α)) : Edit α Unit := do
  let s ← get
  if !s.links.isEmpty then setRhsAll s.links state
  if !s.noiseLinks.isEmpty then
    match noise with
    | some noise => setRhsAll s.noiseLinks noise
    | none => throw (.kind .number)

def setRhsFrom (ids : List Nat) (d : Datum α) : Edit α Unit := do
  if ids.isEmpty then return
  match d.items? with
  | none => throw (.kind .number)
  | some items => setRhsAll ids (← Run.ofExcept (Datum.reals items))

/-- Enter incoming values as they were given; they matter only where there are links. -/
def enterData (state noise : Datum α) : Edit α Unit := do
  let s ← get
  setRhsFrom s.links state
  setRhsFrom s.noiseLinks noise

/-! ### Cuts as rows -/

def checkCut (s : Stage α) (lagged : Bool) (c : Cut α) : Except (Fault α) Unit := do
  c.checkEntries false
  let _ ← linearTerms s.states c.slopes
  if lagged then
    c.checkEntries true
    let _ ← linearTerms s.noise c.noiseSlopes

/-- The terms of the row of a cut: the cost-to-go variable less the slopes, oriented so that the row
is a lower bound. -/
def cutTerms (s : Stage α) (lagged : Bool) (column : Nat) (c : Cut α) : List (Nat × α) :=
  let slopes := s.states.zip c.slopes ++ (if lagged then s.noise.zip c.noiseSlopes else [])
  (column, s.sense.orient 1) :: slopes.map fun (i, a) => (i, -(s.sense.orient a))

def attachCut (lagged : Bool) (c : Cut α) : Edit α Unit := do
  let s ← get
  Run.ofExcept (s.checkCut lagged c)
  match s.costToGoColumn with
  | none => throw (.kind .number)
  | some column =>
    if !Scalar.isNumber c.intercept then throw (.program .number)
    let index := c.index.getD 0
    let id ← putRow ("cut[" ++ toString index ++ "]") (s.cutTerms lagged column c) .atLeast
      (s.sense.orient c.intercept)
    modify fun s => { s with
      costToGo := s.costToGo.map fun ctg => { ctg with attached := ctg.attached ++ [(index, id)] } }

def isAttached (attached : List (Nat × Nat)) (c : Cut α) : Bool :=
  attached.any fun p => some p.1 == c.index

def detach : Edit α Unit := do
  match (← get).costToGo with
  | none => pure ()
  | some ctg =>
    let (active, stale) := ctg.attached.partition fun p =>
      ctg.pool.cuts.any fun c => c.index == some p.1
    removeRows (stale.map (·.2))
    modify fun s => { s with
      costToGo := some { ctg with attached := active, version := ctg.pool.version } }

/-- Bring the rows of the cuts in line with the pool, unless its version is the one attached
last. -/
def attach : Edit α Unit := do
  match (← get).costToGo with
  | none => pure ()
  | some ctg =>
    if ctg.pool.version = ctg.version then return
    (ctg.pool.cuts.filter fun c => !isAttached ctg.attached c).forM (attachCut ctg.lagged)
    detach

/-! ### Solving -/

def failure (s : Stage α) (phase : String) (sample : Datum α) (v : Verdict α) : Fault α :=
  .unsolved { stage := s.stage, markovState := s.markovState, sample
              status := .int v.status.code, phase }

def optimize (lp : Solver α) (phase : String) (sample : Datum α) : Edit α (Solution α) := fun s =>
  match lp s.program with
  | .optimal o =>
    let solution : Solution α :=
      { point := o.point, value := o.value, duals := (s.rows.map (·.id)).zip o.duals }
    (.ok solution, { s with status := .optimal, solution := some solution })
  | v => (.error (s.failure phase sample v), { s with status := v.status, solution := none })

def solve (lp : Solver α) (phase : String) (sample : Datum α) : Edit α (Solution α) := do
  attach
  optimize lp phase sample

def solution? : Edit α (Solution α) := fun s =>
  match s.solution with
  | some x => (.ok x, s)
  | none => (.error .missingPart, s)

/-- Solve one scenario at the present incoming values, for its value and the prices of the links:
those of the states, then those of the lagged noise. -/
def solveScenario (lp : Solver α) (k : Nat) : Edit α (α × List α) := do
  enterScenario (.int k)
  let x ← solve lp "backward" (.int k)
  let s ← get
  return (x.value, (s.links ++ s.noiseLinks).map x.price)

def solveScenarios (lp : Solver α) : Edit α (Outcomes α) := do
  let s ← get
  let results ← (List.range s.sampleCount).mapM (solveScenario lp)
  return { values := results.map (·.1), gradients := results.map (·.2) }

/-- The states of an optimum, moved into their limits, and the noise. -/
def outgoing (s : Stage α) (x : Solution α) : List α × List α :=
  (s.states.map fun i => Limit.clamp (s.lowerLimit i) (s.upperLimit i) (x.valueAt i),
   s.noise.map x.valueAt)

/-- The cost of the stage alone, discounted to the first stage: the value without the cost-to-go. -/
def ownCost (s : Stage α) (discount : α) (t : Nat) (x : Solution α) : α :=
  match s.costToGoColumn with
  | some column => Scalar.pow discount t * (x.value - discount * x.valueAt column)
  | none => Scalar.pow discount t * x.value

/-! ### New cuts -/

/-- The cut that touches an aggregated value at a trial point. A lagged cost-to-go splits the
gradient into the slopes in the state and those in the noise. -/
def buildCut (s : Stage α) (ctg : CostToGo α) (value : α) (gradient state : List α)
    (noise : Option (List α)) (stage markovState : Int) : Except (Fault α) (Cut α) :=
  if ctg.lagged then
    let slopes := gradient.take s.states.length
    let noiseSlopes := gradient.drop s.states.length
    if slopes.length ≠ state.length then .error (.value .lengths)
    else match noise with
      | none => .error (.kind .number)
      | some noise =>
        if noiseSlopes.length ≠ noise.length then .error (.value .lengths)
        else .ok (Cut.through stage markovState value slopes state noiseSlopes noise)
  else if gradient.length ≠ state.length then .error (.value .lengths)
  else .ok (Cut.through stage markovState value gradient state [] [])

/-- An operation on the pool of cuts; there has to be one. -/
def onPool {β : Type} (act : Run α (Pool α) β) : Edit α β := fun s =>
  match s.costToGo with
  | none => (.error .missingPart, s)
  | some ctg =>
    let (r, pool) := act ctg.pool
    (r, { s with costToGo := some { ctg with pool } })

end Stage

end Recourse
