import Recourse.Datum.Grid
import Recourse.Run
/-!
Markov chains over stages: a transition matrix per stage, checked for shape, range and row sums. A
state is reachable if it can be visited with positive probability; only unreachable states may have
rows of zeros.
-/

namespace Recourse

/-- A checked chain: per stage the transition matrix, the number of states and which of them can be
reached. -/
structure Chain (α : Type) where
  matrices : List (List (List α))
  counts : List Nat
  reachable : List (List Bool)
deriving Inhabited

namespace Chain

variable {α : Type} [Scalar α]

def trivial (stages : Nat) : Chain α :=
  { matrices := List.replicate stages [[1]]
    counts := List.replicate stages 1
    reachable := List.replicate stages [true] }

/-- Whether a sum is one to four decimal places. -/
def nearOne (s : α) : Bool :=
  let v := s * ((10000 : Nat) : α)
  decide (Scalar.ratio 19999 2 ≤ v) && decide (v ≤ Scalar.ratio 20001 2)

def nearZero (s : α) : Bool :=
  let v := s * ((10000 : Nat) : α)
  decide (-Scalar.ratio 1 2 ≤ v) && decide (v ≤ Scalar.ratio 1 2)

/-- Check the row sums of the matrix of a stage against what can be reached on the stage before. -/
def checkRows (stage : Nat) (previous : List Bool) (rows : List (List α)) :
    Except (Fault α) Unit :=
  (previous.zip rows).zipIdx.forM fun ((reached, row), j) =>
    let s := Scalar.total row
    if reached then
      if nearOne s then .ok () else .error (.construction (.rowTotal j (stage - 1)))
    else if nearZero s || nearOne s then .ok ()
    else .error (.construction (.idleRowTotal j (stage - 1)))

def step (previous : List Bool) (width : Nat) (rows : List (List α)) : List Bool :=
  let weights := previous.map fun b => if b then (1 : α) else 0
  (Scalar.weightedRows width weights rows).map fun x => decide (0 < x)

def checkStage (stage : Nat) (previous : Option (List Bool)) (width : Nat) (rows : List (List α)) :
    Except (Fault α) (List Bool) := do
  if rows.any fun row => row.any fun x => decide (x < 0) || decide (1 < x) then
    throw (.construction (.chainRange stage))
  match previous with
  | none => if width = 1 then return [true] else throw (.construction .firstStageRandom)
  | some reached =>
    checkRows stage reached rows
    return step reached width rows

variable [Numeral α]

/-- Check one stage after the other. `states` is the number of states of the stage before. -/
def checkStages : Nat → Nat → Option (List Bool) → List (Datum α) → Except (Fault α) (Chain α)
  | _, _, _, [] => .ok { matrices := [], counts := [], reachable := [] }
  | stage, states, previous, item :: items =>
    match item.grid with
    | .error .overflow => .error .overflow
    | .error _ => .error (.construction (.chainEntries stage))
    | .ok (.matrix width rows) => do
      if rows.length ≠ states then throw (.construction (.chainRows stage states))
      let reached ← checkStage stage previous width rows
      let rest ← checkStages (stage + 1) width (some reached) items
      return {
        matrices := rows :: rest.matrices
        counts := width :: rest.counts
        reachable := reached :: rest.reachable }
    | .ok _ => .error (.construction (.chainRows stage states))

/-- The chain that user data describe: one matrix per stage, the first one of a single state. -/
def ofDatum (matrices stages : Datum α) : Except (Fault α) (Chain α) :=
  match matrices.items? with
  | none => .error (.kind .number)
  | some items =>
    if !stages.isWhole items.length then .error (.construction (.chainLength items.length stages))
    else checkStages 0 1 none items

end Chain

end Recourse
