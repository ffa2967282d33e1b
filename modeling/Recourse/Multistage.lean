import Recourse.Stage.Solve
import Recourse.Risk.Preference
import Recourse.Markov.Chain
import Recourse.Linear.Parameter
/-!
Multistage stochastic linear programs: a model for each Markov state of each stage, the chain that
moves between them, and the measure by which the outcomes of a transition are judged.
-/

namespace Recourse

/-- What a problem is asked for with, as it was written, and the parameters that its solver
understands. -/
structure Outline (α : Type) where
  horizon : Datum α
  bound : Datum α := .null
  sense : Datum α := .int 1
  output : Datum α := .int 0
  discount : Datum α
  pruning : Bool := false
  settings : List (String × Datum α) := []
  parameters : Linear.Parameter.Table := .plain

structure Provenance where
  name : String
  author : String
  description : String

/-- A multistage problem. `prepared` tells that the models were checked and joined; `lastBound` is
the bound that training found last. -/
structure Multistage (α : Type) where
  outline : Outline α
  horizon : Nat
  sense : Sense
  discount : α
  pruning : Bool
  chain : Chain α
  markovian : Bool
  measures : List (Preference α)
  riskAverse : Bool
  models : List (List (Stage α))
  prepared : Bool
  lastBound : Option α
  provenance : Option Provenance

namespace Outline

variable {α : Type} [Scalar α] [Numeral α]

def admissible (o : Outline α) : Except (Fault α) Bool := do
  if ← Datum.exceeds (.int 1) o.horizon then return false
  if ← o.discount.exceeds (.int 1) then return false
  if ← Datum.reaches (.int 0) o.discount then return false
  if !(o.sense.isWhole 1 || o.sense.isWhole (-1)) then return false
  return o.output.isWhole 0 || o.output.isWhole 1

def direction (o : Outline α) : Sense := if o.sense.isWhole 1 then .minimize else .maximize

/-- The bound, if none is given far on the side that the objective presses against. -/
def boundOrDefault (o : Outline α) : Datum α :=
  match o.bound, o.direction with
  | .null, .minimize => .int (-1000000000)
  | .null, .maximize => .int 1000000000
  | d, _ => d

/-- The settings of each model: whether it tells about its work, and what was asked for. Those that
are as usual are not kept. -/
def modelSettings (o : Outline α) : Except (Fault α) (List (String × Datum α)) := do
  let output ← Linear.Parameter.setNamed o.parameters [] "OutputFlag" o.output
  if o.sense.int?.isNone then throw .missingPart
  let settings ← o.settings.foldlM (fun settings (name, d) =>
    Linear.Parameter.setNamed o.parameters settings name d) []
  let last := (settings.filter fun entry => entry.1 == "OutputFlag") ++ output
  let others := settings.filter fun entry => entry.1 != "OutputFlag"
  return (others ++ last.take 1).filter (Linear.Parameter.isChanged o.parameters)

def newModels (o : Outline α) (counts : List Nat) : Except (Fault α) (List (List (Stage α))) := do
  let settings ← o.modelSettings
  return counts.zipIdx.map fun (n, (t : Nat)) => (List.range n).map fun (k : Nat) =>
    { Stage.empty (toString t ++ "_" ++ toString k) (.int t) (.int k) o.direction with settings }

end Outline

namespace Multistage

variable {α : Type} [Scalar α]

/-- The problem that an outline describes: one Markov state on each stage, judged by expectation. -/
def create [Numeral α] (o : Outline α) : Except (Fault α) (Multistage α) := do
  if !(← o.admissible) then throw (.construction .arguments)
  match o.horizon.int? with
  | none => throw (.kind .number)
  | some n =>
    let horizon := n.toNat
    let o := { o with bound := o.boundOrDefault }
    return {
      outline := o
      horizon
      sense := o.direction
      discount := ← o.discount.asNumber
      pruning := o.pruning
      chain := Chain.trivial horizon
      markovian := false
      measures := List.replicate horizon .neutral
      riskAverse := false
      models := ← o.newModels (List.replicate horizon 1)
      prepared := false
      lastBound := none
      provenance := none }

/-- The limit of every cost-to-go on the side that the objective presses against. -/
def bound [Numeral α] (p : Multistage α) : Except (Fault α) (Limit α) := p.outline.bound.asLimit

/-- The position of the model of a Markov state of a stage; both may be counted from the end. -/
def locate (p : Multistage α) (t k : Int) : Except (Fault α) (Nat × Nat) :=
  match resolve t p.models.length with
  | none => .error .position
  | some t =>
    match resolve k (p.models.getD t []).length with
    | none => .error .position
    | some k => .ok (t, k)

def model (p : Multistage α) (t k : Int) : Except (Fault α) (Stage α) := do
  entryFrom (← entryFrom p.models t) k

def onModel {β : Type} (t k : Nat) (act : Stage.Edit α β) : Run α (Multistage α) β :=
  Run.zoom Multistage.models (fun models p => { p with models }) (Run.entry t (Run.entry k act))

/-- An operation on a model whose place may be counted from the end. -/
def onModelAt {β : Type} (t k : Int) (act : Stage.Edit α β) : Run α (Multistage α) β := do
  let (t, k) ← Run.ofExcept ((← get).locate t k)
  onModel t k act

def reachableStates (p : Multistage α) (t : Nat) : List Nat :=
  ((p.chain.reachable.getD t []).zipIdx.filter (·.1)).map (·.2)

def reachableModels (p : Multistage α) (t : Nat) : List (Stage α) :=
  ((p.models.getD t []).zip (p.chain.reachable.getD t [])).filterMap fun (m, reached) =>
    if reached then some m else none

def transition (p : Multistage α) (t k : Int) : Except (Fault α) (List α) := do
  entryFrom (← entryFrom p.chain.matrices t) k

variable [Numeral α]

/-- Add a Markov chain. Each Markov state gets a model of its own, so none may have been built. -/
def setChain (matrices : Datum α) : Run α (Multistage α) Unit := do
  let p ← get
  if p.markovian then throw (.value .chainTwice)
  if p.models.any fun ms => ms.any fun m => !m.columns.isEmpty then throw (.value .chainLate)
  let chain ← Run.ofExcept (Chain.ofDatum matrices p.outline.horizon)
  let models ← Run.ofExcept (p.outline.newModels chain.counts)
  set { p with chain, models, markovian := true }

end Multistage

end Recourse
