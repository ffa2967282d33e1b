import Recourse.Multistage.Tree
/-!
Following the policy that the cuts give, stage by stage: at each stage a Markov state and a sample
are chosen, the incoming values of the stage before are entered, and the model is solved.
-/

namespace Recourse

/-- What happened on a stage: where it was, what goes out and what it cost, discounted to the first
stage. -/
structure Visit (α : Type) where
  markovState : Datum α
  sample : Datum α
  state : List α
  noise : List α
  cost : α

abbrev Trajectory (α : Type) := List (Visit α)

def Trajectory.value {α : Type} [Scalar α] (x : Trajectory α) : α := Scalar.total (x.map Visit.cost)

structure Simulation (γ α : Type) where
  problem : Multistage α
  source : γ

namespace Simulation

variable {γ α β : Type}

def onProblem (act : Run α (Multistage α) β) : Run α (Simulation γ α) β :=
  Run.zoom Simulation.problem (fun problem x => { x with problem }) act

def onSource (act : Run α γ β) : Run α (Simulation γ α) β :=
  Run.zoom Simulation.source (fun source x => { x with source }) act

end Simulation

/-- A rule that gives the Markov state and the sample of a stage after a Markov state. -/
abbrev Guide (γ α : Type) := Multistage α → Nat → Int → Run α γ (Datum α × Datum α)

namespace Guide

variable {γ α : Type}

def place (step : Int × Int) : Datum α × Datum α := (.int step.1, .int step.2)

def random [Scalar α] [Source γ α] : Guide γ α := fun p t previous =>
  return place (← p.drawStage t previous)

def along (path : ScenarioPath) : Guide γ α := fun _ t _ =>
  return place (← Run.ofExcept (entryAt path t))

/-- Draw from no source at all: only the first stage, where nothing is drawn, can be entered. -/
def unguided : Guide γ α := fun _ t _ => if t = 0 then return place (0, 0) else throw .missingPart

def stepAt (path : Datum α) (t : Nat) : Except (Fault α) (Datum α × Datum α) := do
  if let .record _ := path then throw .missingColumn
  let step ← match path.items? with
    | some steps => entryAt steps t
    | none => throw (.kind .number)
  match step.items? with
  | some [k, s] => return (k, s)
  | some _ => throw (.value .lengths)
  | none => throw (.kind .number)

/-- Keep to a path given as data; only the steps that are taken have to be in order. -/
def alongData (path : Datum α) : Guide γ α := fun _ t _ => Run.ofExcept (stepAt path t)

end Guide

namespace Multistage

variable {γ α : Type} [Scalar α] [Numeral α]

def visit (lp : Solver α) (t : Nat) (k s : Datum α) (previous : Option (Visit α)) :
    Run α (Multistage α) (Visit α) := do
  let p ← get
  onModelAt t (← Run.ofExcept k.asWhole) do
    match previous with
    | some v => Stage.enterIncoming v.state (some v.noise)
    | none => pure ()
    Stage.enterScenario s
    let x ← Stage.solve lp "forward" s
    let m ← get
    let (state, noise) := m.outgoing x
    return { markovState := k, sample := s, state, noise, cost := m.ownCost p.discount t x }

def walkFrom (lp : Solver α) (guide : Guide γ α) :
    Nat → Nat → Option (Visit α) → Run α (Simulation γ α) (Trajectory α)
  | 0, _, _ => pure []
  | n + 1, t, previous => do
    let p := (← get).problem
    let (k, s) ← Simulation.onSource
        (guide p t ((previous.bind fun v => v.markovState.int?).getD 0))
    let v ← Simulation.onProblem (visit lp t k s previous)
    let rest ← walkFrom lp guide n (t + 1) (some v)
    return v :: rest

def walk (lp : Solver α) (guide : Guide γ α) : Run α (Simulation γ α) (Trajectory α) := do
  let p := (← get).problem
  walkFrom lp guide p.horizon 0 none

end Multistage

end Recourse
