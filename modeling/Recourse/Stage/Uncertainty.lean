import Recourse.Stage.Family
/-!
Constraints, and the random right-hand sides that they may have: a sample per scenario for one row,
a list of samples per scenario for a block of rows, and noise that follows the noise of the stage
before. All samples of a model are as many as it has scenarios.
-/

namespace Recourse

structure Constraint (α : Type) where
  terms : List (Nat × α)
  constant : α
  relation : Relation
  rhs : α

namespace Constraint

variable {α : Type} [Scalar α]

/-- Coefficients of this magnitude or less are left out. -/
def negligible : α := Scalar.ratio 1 (Nat.pow 10 13)

def enterTerm (terms : List (Nat × α)) (t : Nat × α) : List (Nat × α) :=
  if terms.any fun u => u.1 = t.1 then
    terms.map fun u => if u.1 = t.1 then (u.1, u.2 + t.2) else u
  else terms ++ [t]

def gathered (c : Constraint α) : List (Nat × α) :=
  (c.terms.foldl enterTerm []).filter fun t => decide (negligible < Scalar.abs t.2)

end Constraint

namespace Stage

variable {α : Type} [Scalar α]

def addConstraintRow (c : Constraint α) (name : String) : Edit α Nat :=
  addRow name c.gathered c.relation (c.rhs - c.constant)

/-! ### Samples -/

/-- Check that samples agree in number with those present; the first samples fix the number. -/
def checkSampleCount (samples : Grid α) (count : Nat) : Edit α Unit := fun s =>
  if count = 0 then (.error (.value .noScenarios), s)
  else if s.random.isEmpty then (.ok (), { s with sampleCount := count })
  else if s.sampleCount ≠ count then
    (.error (.sampleSize (.text s.name) (.int s.sampleCount) samples.toDatum (.int count)), s)
  else (.ok (), s)

/-- Enter samples for rows; rows that have samples get new ones. -/
def assign (entry : RandomRhs α) : Edit α Unit := fun s =>
  let sameRows : RandomRhs α → Bool
    | .block rows _ => match entry with
      | .block new _ => rows == new
      | .single _ _ => false
    | .single row _ => match entry with
      | .single new _ => row == new
      | .block _ _ => false
  let random :=
    if s.random.any sameRows then s.random.map fun r => if sameRows r then entry else r
    else s.random ++ [entry]
  (.ok (), { s with random })

def checkBlock (samples : Grid α) (width : Nat) : Edit α (List (List α)) :=
  match samples with
  | .matrix w rows => do
    if w ≠ width then throw (.value (.scenarioShape (some w) width))
    checkSampleCount samples rows.length
    return rows
  | _ => throw (.value (.scenarioShape none width))

variable [Numeral α]

def scenarios (d : Datum α) : Except (Fault α) (Grid α) :=
  match d.grid with
  | .ok g => .ok g
  | .error .overflow => .error .overflow
  | .error _ => .error (.value .scenarioEntries)

/-- Check the samples of one row: a record with the samples of the right-hand side and nothing
else. -/
def checkSamples (uncertainty : Datum α) : Edit α (List α) :=
  match uncertainty with
  | .record [("rhs", d)] => do
    match ← Run.ofExcept (scenarios d) with
    | .vector xs =>
      checkSampleCount (.vector xs) xs.length
      return xs
    | g => throw (.value (.scenarioShape (some g.rank) 1))
  | .record _ => throw (.kind .uncertaintyKey)
  | _ => throw (.kind .uncertaintyForm)

/-! ### Constraints -/

/-- Add a constraint, with samples of its right-hand side if it is random. The samples come first:
they may have fixed the number of scenarios when a name that is no text is refused. -/
def addConstraint (c : Constraint α) (name : Datum α) (uncertainty : Option (Datum α)) :
    Edit α Nat := do
  match uncertainty with
  | none => addConstraintRow c (← Run.ofExcept name.asName)
  | some u =>
    let samples ← checkSamples u
    let id ← addConstraintRow c (← Run.ofExcept name.asName)
    assign (.single id samples)
    return id

/-- Add the rows of a block, one after the other, up to the first constraint that could not be
read. -/
def addBlock (cs : List (Except (Fault α) (Constraint α))) (name : Datum α) :
    Edit α (List Nat) := do
  let name ← Run.ofExcept name.asName
  cs.zipIdx.mapM fun (c, i) => do
    addConstraintRow (← Run.ofExcept c) (memberName name (toString i))

/-- Add a block of constraints, with a list of samples per scenario if it is random. A block whose
samples are rejected is taken back. -/
def addConstraints (cs : List (Except (Fault α) (Constraint α))) (name : Datum α)
    (uncertainty : Option (Datum α)) : Edit α (List Nat) := do
  let ids ← addBlock cs name
  match uncertainty with
  | none => return ids
  | some u =>
    let takeBack (e : Fault α) : Edit α (List Nat) := do
      match e with
      | .overflow => throw e
      | e =>
        removeRows ids
        throw e
    tryCatch (do
      let samples ← checkBlock (← Run.ofExcept (scenarios u)) ids.length
      assign (.block ids samples)
      return ids) takeBack

/-! ### Autoregressive noise -/

/-- The innovations as a matrix: a plain list is noise of one dimension. -/
def innovationMatrix (d : Datum α) : Except (Fault α) (Nat × List (List α)) := do
  match ← scenarios d with
  | .vector xs => return (1, xs.map fun x => [x])
  | .matrix width rows => return (width, rows)
  | _ => throw (.value .innovationShape)

/-- The coefficients as a matrix with a row per dimension of the noise. -/
def coefficientMatrix (d : Option (Datum α)) (dimension : Nat) :
    Except (Fault α) (Nat × List (List α)) :=
  match d with
  | none => .ok (0, List.replicate dimension [])
  | some d =>
    match d.grid with
    | .error e => .error e
    | .ok (.matrix width rows) =>
      if rows.length = dimension then .ok (width, rows)
      else .error (.value (.coefficientRows dimension))
    | .ok _ => .error (.value (.coefficientRows dimension))

def addFree (n : Nat) (name : Datum α) : Edit α (List Nat) := do
  let keys := (List.range n).map fun (i : Nat) => [Datum.int i]
  let names ← Run.ofExcept (Datum.memberNames keys name)
  addColumns (names.map fun name => { name, lower := .below, upper := .above, cost := 0 })

def addCombination (name : String) (column : Nat) (past : List Nat) (line : List α) :
    Edit α Nat := do
  let terms ← Run.ofExcept (linearTerms past line)
  addRow name ((column, 1) :: terms.map fun t => (t.1, -t.2)) .equal 0

/-- Add noise that follows `noise = coefficients · lagged noise + innovation`. The innovations are
the random right-hand sides of the rows that say so. The columns of the noise may have a list of
names, the rest needs a text. -/
def addLaggedNoise (innovations : Datum α) (coefficients : Option (Datum α)) (name : Datum α) :
    Edit α (List Nat × List Nat) := do
  let s ← get
  if !s.noise.isEmpty then throw (.value .noiseTwice)
  let (dimension, rows) ← Run.ofExcept (innovationMatrix innovations)
  let (width, matrix) ← Run.ofExcept (coefficientMatrix coefficients dimension)
  let samples ← checkBlock (.matrix dimension rows) dimension
  let noise ← addFree dimension name
  let name ← Run.ofExcept name.asName
  let past ← addFree width (.text (name ++ "_past"))
  let ids ← (noise.zip matrix).zipIdx.mapM fun ((column, line), i) =>
    addCombination (name ++ "_AR1[" ++ toString i ++ "]") column past line
  assign (.block ids samples)
  modify fun s => { s with noise, noiseCopies := past, coefficients := some matrix }
  return (noise, past)

/-! ### Probabilities -/

/-- Whether a sum of probabilities is one to four decimal places. -/
def sumsToOne (p : List α) : Bool :=
  decide (Scalar.abs (1 - Scalar.total p) ≤ Scalar.ratio 1 20000)

def setProbability (probability : Datum α) : Edit α Unit := do
  match probability.items? with
  | none => throw (.kind .number)
  | some items =>
    let p ← Run.ofExcept (items.mapM Datum.asNumeral)
    let s ← get
    if p.length ≠ s.sampleCount then throw (.value .probabilityCount)
    if p.any (fun x => decide (x < 0)) || !sumsToOne p then throw (.value .probabilityTotal)
    modify fun s => { s with probability := some p }

end Stage

end Recourse
