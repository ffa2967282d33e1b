import Recourse.Stage.State
import Recourse.Stage.Uncertainty
/-!
What turns a stage model into a subproblem: rows that link the local copies to the incoming values,
and the cost-to-go variable with its pool of cuts. Each part is set up once.
-/

namespace Recourse.Stage

variable {α : Type} [Scalar α]

section Links

variable [Numeral α]

def fixInitial : List (Nat × Datum α) → Edit α Unit
  | [] => pure ()
  | (column, d) :: rest => do
    if !d.isNull then
      let _ ← addRow "initial_value" [(column, 1)] .equal (← Run.ofExcept d.asNumber)
    fixInitial rest

/-- The label under which a column stands in the names of rows. -/
def columnLabel (s : Stage α) (column : Nat) : String :=
  "<gurobi.Var " ++ s.columnName column ++ ">"

def addLinks (columns : List Nat) (name : String) : Edit α (List Nat) := do
  let s ← get
  columns.mapM fun column =>
    addRow (memberName name (s.columnLabel column)) [(column, 1)] .equal 0

/-- Set up the links. On the first stage the incoming values are the initial ones. -/
def setUpLinks (first : Bool) : Edit α Unit := do
  let s ← get
  if s.linked then return
  if first then
    fixInitial (s.copies.zip s.initial)
  else
    let links ← addLinks s.copies "link_constrs"
    let noiseLinks ← addLinks s.noiseCopies "noise_link_constrs"
    modify fun s => { s with links, noiseLinks }
  modify fun s => { s with linked := true }

end Links

/-- Add the cost-to-go variable, bounded on the side that the objective presses against. -/
def addCostToGo (discount : α) (bound : Limit α) : Edit α Unit := do
  let s ← get
  let column ← match s.sense with
    | .minimize => addColumn "alpha" bound .above discount
    | .maximize => addColumn "alpha" .below bound discount
  modify fun s => { s with costToGoColumn := some column }

/-- Give the model a cost-to-go variable if it has none. Only then the discount and the bound are
needed. -/
def setUpCostToGo (terms : Except (Fault α) (α × Limit α)) : Edit α Unit := do
  let s ← get
  if s.costToGoColumn.isSome then return
  let (discount, bound) ← Run.ofExcept terms
  addCostToGo discount bound

def costToGoTerms [Numeral α] (discount bound : Datum α) : Except (Fault α) (α × Limit α) := do
  let bound ← bound.asLimit
  return (← discount.asNumber, bound)

/-- The box of the cut columns: the limits of the states, and no limits for the noise. -/
def cutBox (s : Stage α) (lagged : Bool) : Box α :=
  let free := if lagged then s.noise.length else 0
  { lower := s.states.map s.lowerLimit ++ List.replicate free .below
    upper := s.states.map s.upperLimit ++ List.replicate free .above }

def newCostToGo (sense : Sense) (box : Box α) (pruning lagged : Bool) : CostToGo α :=
  { lagged, pool := Pool.empty sense box pruning, attached := [], version := 0 }

def setUpPool (sense : Sense) (pruning lagged : Bool) : Edit α Unit := fun s =>
  (.ok (), match s.costToGo with
    | some _ => s
    | none => { s with costToGo := some (newCostToGo sense (s.cutBox lagged) pruning lagged) })

end Recourse.Stage
