import Recourse.Run
import Recourse.Stage
/-!
Editing the linear program of a model: columns and rows are added, right-hand sides and the
objective are set. What the program cannot hold is refused: numbers that are none, infinite
coefficients, and names that are too long. Every change makes the last solution void.
-/

namespace Recourse

/-- How many bytes the name of a column or of a row may have. -/
def nameLimit : Nat := 255

namespace Column

variable {α : Type} [Scalar α]

def isDefined (c : Column α) : Bool :=
  c.lower.isDefined && c.upper.isDefined && Scalar.isNumber c.cost

def check (c : Column α) : Except (Fault α) Unit :=
  if !c.isDefined then .error (.program .number)
  else if nameLimit < c.name.utf8ByteSize then .error (.program .nameLength)
  else .ok ()

end Column

namespace Stage

variable {α : Type} [Scalar α]

abbrev Edit (α : Type) := Run α (Stage α)

/-! ### Columns -/

/-- Put a column behind the others; one without a name is named by its position. Limits beyond the
threshold are none. -/
def putColumn (c : Column α) : Edit α Nat := fun s =>
  let i := s.columns.length
  let name := if c.name.isEmpty then "C" ++ toString i else c.name
  (.ok i, { s.discard with
    columns := s.columns ++ [{ c with name, lower := c.lower.asLower, upper := c.upper.asUpper }] })

def addColumn (name : String) (lower upper : Limit α) (cost : α) : Edit α Nat := do
  let c : Column α := { name, lower, upper, cost }
  Run.ofExcept c.check
  putColumn c

def memberName (name label : String) : String :=
  if name.isEmpty then "" else name ++ "[" ++ label ++ "]"

/-- Add several columns at once: all of them, or none if one is refused. -/
def addColumns (cs : List (Column α)) : Edit α (List Nat) := do
  cs.forM fun c => Run.ofExcept c.check
  cs.mapM putColumn

/-! ### Rows -/

def linearTerms (columns : List Nat) (coefficients : List α) :
    Except (Fault α) (List (Nat × α)) :=
  if columns.length ≠ coefficients.length then .error (.program .lengths)
  else if !coefficients.all Scalar.isFinite then .error (.program .number)
  else .ok (columns.zip coefficients)

/-- Put a row behind the others; one without a name is named by its number. -/
def putRow (name : String) (terms : List (Nat × α)) (relation : Relation) (rhs : α) :
    Edit α Nat := fun s =>
  let id := s.issued
  let name := if name.isEmpty then "R" ++ toString id else name
  (.ok id, { s.discard with
    rows := s.rows ++ [⟨id, name, terms, relation, rhs⟩]
    issued := id + 1 })

def addRow (name : String) (terms : List (Nat × α)) (relation : Relation) (rhs : α) :
    Edit α Nat := do
  if !(terms.all fun t => Scalar.isFinite t.2) || !Scalar.isNumber rhs then
    throw (.program .number)
  if nameLimit < name.utf8ByteSize then throw (.program .nameLength)
  putRow name terms relation rhs

def removeRows (ids : List Nat) : Edit α Unit := fun s =>
  if ids.isEmpty then (.ok (), s)
  else (.ok (), { s.discard with rows := s.rows.filter fun r => !ids.contains r.id })

def putRhs (id : Nat) (rhs : α) : Edit α Unit := fun s =>
  (.ok (), { s.discard with
    rows := s.rows.map fun r => if r.id = id then { r with rhs } else r })

def setRhs (id : Nat) (rhs : α) : Edit α Unit := do
  if !Scalar.isNumber rhs then throw .missingPart
  putRhs id rhs

def setRhsAll (ids : List Nat) (xs : List α) : Edit α Unit := do
  if ids.length ≠ xs.length || !xs.all Scalar.isNumber then throw .missingPart
  (ids.zip xs).forM fun (id, x) => putRhs id x

/-! ### Objective -/

def setObjective (terms : List (Nat × α)) (constant : α) : Edit α Unit := do
  if !(terms.all fun t => Scalar.isNumber t.2) || !Scalar.isNumber constant then
    throw (.program .number)
  modify fun s => { s.discard with
    columns := s.columns.zipIdx.map fun (c, i) =>
      { c with cost := Scalar.total ((terms.filter fun t => t.1 = i).map (·.2)) }
    constant }

def setSense (sense : Sense) : Edit α Unit := fun s =>
  (.ok (), if s.sense = sense then s else { s.discard with sense })

/-- Ask for the value on the side that a whole number tells by its sign. -/
def setSenseFrom (d : Datum α) : Edit α Unit :=
  match d.int? with
  | some n => setSense (if n < 0 then .maximize else .minimize)
  | none => throw .missingPart

end Stage

end Recourse
