import Recourse.Multistage.Trajectory
/-!
Refining the cost-to-go functions at trial points, from the last stage backwards. The outcomes of
all reachable Markov states of a stage are judged by the measure of the stage, once for each Markov
state of the stage before, and the result is a new cut there.
-/

namespace Recourse.Multistage

variable {α : Type} [Scalar α] [Numeral α]

def outcomes (lp : Solver α) (t k : Nat) (state : List α) (noise : Option (List α)) :
    Run α (Multistage α) (Outcomes α) :=
  onModel t k do
    Stage.enterIncoming state noise
    Stage.solveScenarios lp

def gather (results : List (Outcomes α)) : Outcomes α :=
  { values := results.flatMap Outcomes.values, gradients := results.flatMap Outcomes.gradients }

/-- The probabilities of all outcomes of stage `t` after the Markov state `j`, in the order of the
reachable Markov states and their samples. -/
def outcomeProbabilities (p : Multistage α) (t j : Nat) : Except (Fault α) (List α) := do
  let row ← p.transition t j
  let parts ← (p.reachableStates t).mapM fun k => do
    let x ← entryAt row k
    let m ← p.model t k
    return m.probabilities.map (x * ·)
  return parts.flatten

/-- Judge the outcomes of stage `t` as they look from the Markov state `j` of the stage before. -/
def judge (p : Multistage α) (t j : Nat) (found : Outcomes α) : Except (Fault α) (Aggregate α) := do
  let probabilities ← p.outcomeProbabilities t j
  let choice ← entryAt p.measures t
  (← choice.measure).apply p.sense found.values found.gradients (some probabilities)

/-- Add the cut for the Markov state `j` of the stage before `t` that the outcomes give at a trial
point. -/
def refineAt (t j : Nat) (found : Outcomes α) (state : List α) (noise : Option (List α)) :
    Run α (Multistage α) Unit := do
  let p ← get
  let total ← Run.ofExcept (p.judge t j found)
  let m ← Run.ofExcept (p.model (t - 1 : Nat) j)
  match m.costToGo with
  | none => throw .missingPart
  | some ctg =>
    let cut ← Run.ofExcept
      (m.buildCut ctg total.value (total.gradient.getD []) state noise (t - 1 : Nat) j)
    let _ ← onModel (t - 1) j (Stage.onPool (Pool.add cut))

def refineStage (lp : Solver α) (t : Nat) (state : List α) (noise : Option (List α)) :
    Run α (Multistage α) Unit := do
  let p ← get
  let found ← (p.reachableStates t).mapM fun k => outcomes lp t k state noise
  (p.reachableStates (t - 1)).forM fun j => refineAt t j (gather found) state noise

/-- Refine at the trial points of stages `t - 1`, …, `0`, in this order. -/
def refineFrom (lp : Solver α) (states : List (List α)) (noises : List (Option (List α))) :
    Nat → Run α (Multistage α) Unit
  | 0 => pure ()
  | t + 1 => do
    let state ← Run.ofExcept (entryAt states t)
    let noise ← Run.ofExcept (entryAt noises t)
    refineStage lp (t + 1) state noise
    refineFrom lp states noises t

def refine (lp : Solver α) (states : List (List α)) (noises : List (Option (List α))) :
    Run α (Multistage α) Unit := do
  let p ← get
  refineFrom lp states noises (p.horizon - 1)

def trialAt (trial : Datum α) (t : Nat) : Except (Fault α) (List α) := do
  match trial.items? with
  | none => throw (.kind .number)
  | some stages =>
    match (← entryAt stages t).items? with
    | none => throw (.kind .number)
    | some items => Datum.reals items

/-- The noise of stage `t` in a trial given as data. It may be missing, on a stage or altogether,
where nothing depends on it; without any, there is no noise. -/
def noiseAt (trial : Datum α) (t : Nat) : Except (Fault α) (Option (List α)) := do
  if trial.isNull then return some []
  match trial.items? with
  | none => throw (.kind .number)
  | some stages => if (← entryAt stages t).isNull then return none else (trialAt trial t).map some

def refineData (lp : Solver α) (states noises : Datum α) : Nat → Run α (Multistage α) Unit
  | 0 => pure ()
  | t + 1 => do
    let state ← Run.ofExcept (trialAt states t)
    let noise ← Run.ofExcept (noiseAt noises t)
    refineStage lp (t + 1) state noise
    refineData lp states noises t

def refineAlong (lp : Solver α) (x : Trajectory α) : Run α (Multistage α) Unit :=
  refine lp (x.map Visit.state) (x.map fun v => some v.noise)

/-- Refine along trajectories, one after the other. The passes break off behind a number of them if
there is a limit. -/
def refineAll (lp : Solver α) (walks : List (Trajectory α)) (limit : Option Nat := none) :
    Run α (Multistage α) Unit := do
  (leading limit walks).forM (refineAlong lp)
  Run.breakOff limit.isSome

/-- The value of the first stage under the present cuts: a bound on the value of the problem. -/
def computeBound (lp : Solver α) : Run α (Multistage α) α :=
  onModel 0 0 do
    Stage.enterScenario (.int 0)
    let x ← Stage.solve lp "bound" .null
    return x.value

/-- The values of the states in the last solution of the first stage, by name. A name that occurs
twice keeps its place and takes the later value. -/
def firstStageSolution (p : Multistage α) : Except (Fault α) (List (String × α)) := do
  let m ← p.model 0 0
  if m.states.isEmpty then return []
  match m.solution with
  | none => throw .missingPart
  | some x =>
    return m.states.foldl (fun entries i =>
      let name := m.columnName i
      let value := x.valueAt i
      if entries.any (·.1 == name) then
        entries.map fun e => if e.1 == name then (name, value) else e
      else entries ++ [(name, value)]) []

end Recourse.Multistage
