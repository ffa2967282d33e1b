import Recourse.Multistage
import Recourse.Random.Source
/-!
The scenario tree of a problem: how it is walked at random, which paths there are, and how likely
each of them is. A path is a Markov state and a sample per stage.
-/

namespace Recourse

abbrev ScenarioPath := List (Int × Int)

namespace Multistage

variable {α : Type} [Scalar α]

/-! ### Walking at random -/

section Sampling

variable {γ : Type} [Source γ α]

def drawState (p : Multistage α) (t k : Int) : Run α γ Nat := do
  if t = 0 then return 0
  let n ← Run.ofExcept (entryFrom p.chain.counts t)
  let row ← Run.ofExcept (p.transition t k)
  Source.choose n row

/-- The row of a transition matrix that a datum points to. Only whole numbers point to one; truth
values, lists and nothing point to more than a row. -/
def rowIndex (k : Datum α) : Except (Fault α) Int :=
  match k with
  | .int k => .ok k
  | .null | .bool _ | .list _ => .error (.value .distribution)
  | _ => .error .position

def drawStateAt [Numeral α] (p : Multistage α) (t k : Datum α) : Run α γ Nat := do
  if t.isWhole 0 then return 0
  let t ← Run.ofExcept t.asWhole
  let _ ← Run.ofExcept (entryFrom p.chain.counts t)
  p.drawState t (← Run.ofExcept (rowIndex k))

def drawSample (m : Stage α) : Run α γ Nat :=
  match m.probability with
  | none => Source.draw m.sampleCount
  | some p => Source.choose m.sampleCount p

def drawStage (p : Multistage α) (t : Nat) (previous : Int) : Run α γ (Int × Int) := do
  let k : Nat ← p.drawState t previous
  if t = 0 then return (k, 0)
  let m ← Run.ofExcept (p.model t k)
  let s : Nat ← drawSample m
  return (k, s)

end Sampling

/-! ### Enumerating the paths -/

/-- The Markov states and samples of stage `t` that follow a Markov state with positive
probability. -/
def successors (p : Multistage α) (t : Nat) (previous : Int) : ScenarioPath :=
  let row := ((p.transition t previous).toOption).getD []
  (row.zip (p.models.getD t [])).zipIdx.flatMap fun ((x, m), (k : Nat)) =>
    if Scalar.isZero x then []
    else (m.probabilities.zipIdx.filter fun q => !Scalar.isZero q.1).map fun (_, (s : Nat)) =>
      ((k : Int), (s : Int))

def extend (p : Multistage α) (t : Nat) (path : ScenarioPath) : List ScenarioPath :=
  (p.successors t ((path.getLast?.map (·.1)).getD 0)).map fun step => path ++ [step]

def paths (p : Multistage α) : List ScenarioPath :=
  (List.range (p.horizon - 1)).foldl (fun paths t => paths.flatMap (p.extend (t + 1))) [[(0, 0)]]

def stepWeight (p : Multistage α) (t : Nat) (previous : Option Int) (step : Int × Int) :
    Except (Fault α) (α × α) := do
  let move ← match previous with
    | none => pure 1
    | some j => entryFrom (← p.transition t j) step.1
  let m ← p.model t step.1
  return (move, ← entryFrom m.probabilities step.2)

def weightFrom (p : Multistage α) : Nat → Option Int → α → ScenarioPath → Except (Fault α) α
  | _, _, weight, [] => .ok weight
  | t, previous, weight, step :: path => do
    let (move, q) ← p.stepWeight t previous step
    p.weightFrom (t + 1) (some step.1) (weight * move * q) path

def weight (p : Multistage α) (path : ScenarioPath) : Except (Fault α) α :=
  p.weightFrom 0 none 1 path

end Multistage

end Recourse
