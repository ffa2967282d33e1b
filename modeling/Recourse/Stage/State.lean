import Recourse.Stage.Family
import Recourse.Datum.Stretch
/-!
State variables. Each has a local copy, which holds the value that comes in from the stage before,
and may have an initial value. A call whose initial values are refused has added its columns
already.
-/

namespace Recourse

namespace Limit

variable {α : Type} [Scalar α]

def exceeds : Limit α → Limit α → Bool
  | .above, .above | .below, _ | _, .above => false
  | .above, _ | _, .below => true
  | .fin a, .fin b => decide (b < a)

variable [Numeral α]

def belowDatum (l : Limit α) (d : Datum α) : Except (Fault α) Bool :=
  match l, d with
  | .fin a, d => d.reaches (.real a)
  | l, .real x => .ok (l.leNumber x)
  | .below, d => d.asWhole.map fun _ => true
  | .above, d => d.asWhole.map fun _ => false

def aboveDatum (l : Limit α) (d : Datum α) : Except (Fault α) Bool :=
  match l, d with
  | .fin a, d => Datum.reaches (.real a) d
  | l, .real x => .ok (numberLe x l)
  | .below, d => d.asWhole.map fun _ => false
  | .above, d => d.asWhole.map fun _ => true

end Limit

namespace Stage

variable {α : Type} [Scalar α] [Numeral α]

/-! ### Initial values -/

def initialItems (initial : Datum α) (n : Nat) : Except (Fault α) (List (Datum α)) :=
  match initial.items? with
  | none => .ok (List.replicate n initial)
  | some items =>
    if items.length = n then .ok items else .error (.construction (.initialCount items.length n))

def checkInitial (s : Stage α) (column : Nat) (d : Datum α) : Except (Fault α) Unit := do
  if d.isNull then return
  let lower := s.lowerLimit column
  let upper := s.upperLimit column
  let inside ← do
    if ← lower.belowDatum d then upper.aboveDatum d else pure false
  if !inside then
    throw (.construction (.initialOutside d (s.columnName column) lower upper))

def checkInitials (s : Stage α) (columns : List Nat) (initial : Datum α) :
    Except (Fault α) (List (Datum α)) := do
  let items ← initialItems initial columns.length
  (columns.zip items).forM fun (column, d) => s.checkInitial column d
  return items

/-- Register states and local copies, provided that their initial values are acceptable. -/
def enterStates (states copies : List Nat) (initial : Datum α) :
    Edit α (List Nat × List Nat) := do
  let s ← get
  let values ← Run.ofExcept (s.checkInitials states initial)
  modify fun s => { s with
    initial := s.initial ++ values
    states := s.states ++ states
    copies := s.copies ++ copies }
  return (states, copies)

/-! ### Adding states -/

def copyEnding : String := "_local_copy"

def addState (name : String) (lower upper : Limit α) (cost : α) (initial : Datum α) :
    Edit α (List Nat × List Nat) := do
  if lower.exceeds upper then throw (.construction (.stateLimits name false))
  let state ← addColumn name lower upper cost
  let copy ← addColumn (name ++ copyEnding) lower upper 0
  enterStates [state] [copy] initial

def copyName (name : Datum α) : Except (Fault α) (Datum α) :=
  name.asName.map fun name => .text (name ++ copyEnding)

def addStateVariable (r : Request α) (initial : Datum α) : Edit α (List Nat × List Nat) := do
  if ← Run.ofExcept (r.lower.exceeds r.upper) then
    throw (.construction (.stateLimits r.name.shown false))
  let state ← addVariable r
  let name ← Run.ofExcept (copyName r.name)
  let copy ← addVariable { r with name, cost := .int 0 }
  enterStates [state] [copy] initial

def addStateFamily (axes : List (Datum α)) (r : Request α) (initial : Datum α) :
    Edit α (List Nat × List Nat) := do
  if !(← Run.ofExcept (r.lower.allBelow r.upper)) then
    throw (.construction (.stateLimits r.name.shown true))
  let states ← addFamily axes r
  let name ← Run.ofExcept (copyName r.name)
  let copies ← addFamily axes { r with name, cost := .int 0 }
  enterStates states copies initial

end Stage

end Recourse
