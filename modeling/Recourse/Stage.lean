import Recourse.Cut.Pool
import Recourse.Linear.Program
/-!
The model of one Markov state of a stage: a linear program with its state variables and their local
copies, the noise, the right-hand sides that are random, and the cost-to-go variable with the cuts
that bound it.
-/

namespace Recourse

/-- A random right-hand side: one row with a sample per scenario, or a block of rows with a list of
samples per scenario. -/
inductive RandomRhs (α : Type) where
  | single (row : Nat) (samples : List α)
  | block (rows : List Nat) (samples : List (List α))

namespace RandomRhs

variable {α : Type}

def sampleCount : RandomRhs α → Nat
  | .single _ samples => samples.length
  | .block _ samples => samples.length

end RandomRhs

/-- The cost-to-go function of a stage: its pool of cuts, the rows by which the cuts are attached to
the model, and the version of the pool at the last attachment. A lagged one depends on the noise
too. -/
structure CostToGo (α : Type) where
  lagged : Bool
  pool : Pool α
  attached : List (Nat × Nat)
  version : Nat

structure Solution (α : Type) where
  point : List α
  value : α
  duals : List (Nat × α)

namespace Solution

variable {α : Type} [Scalar α]

def valueAt (x : Solution α) (column : Nat) : α := x.point.getD column 0

def price (x : Solution α) (row : Nat) : α := (x.duals.lookup row).getD 0

end Solution

/-- How the last solution of a program stands. `pending` tells that there is none for the program as
it is, because it was never solved or was changed since. -/
inductive Status where
  | pending
  | optimal
  | infeasible
  | unbounded
  | gaveUp
deriving DecidableEq, Repr, Inhabited

namespace Status

def code : Status → Int
  | .pending => 1
  | .optimal => 2
  | .infeasible => 3
  | .unbounded => 5
  | .gaveUp => 12

end Status

def Verdict.status {α : Type} : Verdict α → Status
  | .optimal _ => .optimal
  | .infeasible => .infeasible
  | .unbounded => .unbounded
  | .gaveUp => .gaveUp

/-- The model of a Markov state of a stage. Columns are known by position and rows by identifier;
`issued` counts the rows that were ever added, and `unlisted` holds the columns that the program has
although the family that they belong to was refused. Initial values are kept as they were given. -/
structure Stage (α : Type) where
  name : String
  stage : Datum α
  markovState : Datum α
  sense : Sense
  settings : List (String × Datum α)
  columns : List (Column α)
  unlisted : List Nat
  rows : List (Row α)
  issued : Nat
  constant : α
  states : List Nat
  copies : List Nat
  initial : List (Datum α)
  noise : List Nat
  noiseCopies : List Nat
  coefficients : Option (List (List α))
  random : List (RandomRhs α)
  sampleCount : Nat
  probability : Option (List α)
  links : List Nat
  noiseLinks : List Nat
  linked : Bool
  costToGoColumn : Option Nat
  costToGo : Option (CostToGo α)
  status : Status
  solution : Option (Solution α)

namespace Stage

variable {α : Type} [Scalar α]

def empty (name : String) (stage markovState : Datum α) (sense : Sense) : Stage α :=
  { name, stage, markovState, sense, settings := [("OutputFlag", .int 0)]
    columns := [], unlisted := [], rows := [], issued := 0, constant := 0
    states := [], copies := [], initial := [], noise := [], noiseCopies := [], coefficients := none
    random := [], sampleCount := 1, probability := none
    links := [], noiseLinks := [], linked := false
    costToGoColumn := none, costToGo := none, status := .pending, solution := none }

/-- The model without the solution of the program, which is no longer the one that was solved. -/
def discard (s : Stage α) : Stage α := { s with status := .pending, solution := none }

def program (s : Stage α) : Program α :=
  { sense := s.sense, columns := s.columns, rows := s.rows, constant := s.constant }

def probabilities (s : Stage α) : List α :=
  s.probability.getD (List.replicate s.sampleCount (Scalar.ratio 1 s.sampleCount))

def columnName (s : Stage α) (i : Nat) : String := (s.columns[i]?.map (·.name)).getD ""

def lowerLimit (s : Stage α) (i : Nat) : Limit α := (s.columns[i]?.map (·.lower)).getD .below

def upperLimit (s : Stage α) (i : Nat) : Limit α := (s.columns[i]?.map (·.upper)).getD .above

def listed (s : Stage α) : List (Column α) :=
  (s.columns.zipIdx.filter fun c => !s.unlisted.contains c.2).map (·.1)

def cutColumns (s : Stage α) (c : CostToGo α) : List Nat :=
  if c.lagged then s.states ++ s.noise else s.states

end Stage

end Recourse
