import Recourse.Stage.Edit
import Recourse.Datum.Grid
import Recourse.Datum.Text
/-!
Variables as users ask for them, alone or in families. The members of a family are known by keys,
which its axes spell: a count, or a list of keys. A value may be one for all members, one for each,
or one under the key of each.
-/

namespace Recourse

structure Request (α : Type) where
  name : Datum α := .text ""
  lower : Datum α
  upper : Datum α
  cost : Datum α

namespace Datum

variable {α : Type}

/-- The keys that an axis spells: the numbers below a count, or what a loop over it meets. -/
def axis (d : Datum α) : Except (Fault α) (List (Datum α)) :=
  match d with
  | .int n => .ok ((List.range n.toNat).map fun (i : Nat) => .int i)
  | d => match d.items? with
    | some keys => .ok keys
    | none => .error (.kind .number)

/-- The keys of a family with several axes, the last one running fastest. -/
def combinations : List (List (Datum α)) → List (List (Datum α))
  | [] => [[]]
  | keys :: axes => keys.flatMap fun key => (combinations axes).map fun rest => key :: rest

def familyKeys (axes : List (Datum α)) : Except (Fault α) (List (List (Datum α))) := do
  if axes.isEmpty then throw .position
  return combinations (← axes.mapM axis)

def forMembers (keys : List (List (Datum α))) (d : Datum α) : Except (Fault α) (List (Datum α)) :=
  match d with
  | .list _ => if d.leaves.length = keys.length then .ok d.leaves else .error .count
  | .record _ => keys.mapM fun key =>
    match key with
    | [.text name] => match d.get? name with
      | some x => .ok x
      | none => .error .missingColumn
    | _ => .error .missingColumn
  | d => .ok (keys.map fun _ => d)

def isKey : Datum α → Bool
  | .list _ | .record _ => false
  | _ => true

def label [Numeral α] (key : List (Datum α)) : String := ",".intercalate (key.map shown)

variable [Scalar α] [Numeral α]

def asLimit (d : Datum α) : Except (Fault α) (Limit α) := d.asNumber.map Limit.ofNumber

def asName : Datum α → Except (Fault α) String
  | .text s => .ok s
  | _ => .error (.kind .number)

def hasRepeats : List (List (Datum α)) → Bool
  | [] => false
  | key :: keys => keys.any (sameAll key) || hasRepeats keys

def memberNames (keys : List (List (Datum α))) (name : Datum α) : Except (Fault α) (List String) :=
  match name with
  | .text name => .ok (keys.map fun key => Stage.memberName name (label key))
  | .list _ => do (← name.forMembers keys).mapM asName
  | _ => .error (.kind .number)

end Datum

namespace Request

variable {α : Type} [Scalar α] [Numeral α]

def column (r : Request α) : Except (Fault α) (Column α) := do
  let lower ← r.lower.asLimit
  let upper ← r.upper.asLimit
  let cost ← r.cost.asNumber
  return { name := ← r.name.asName, lower, upper, cost }

def columns (r : Request α) (keys : List (List (Datum α))) :
    Except (Fault α) (List (Column α)) := do
  let lower ← (← r.lower.forMembers keys).mapM Datum.asLimit
  let upper ← (← r.upper.forMembers keys).mapM Datum.asLimit
  let cost ← (← r.cost.forMembers keys).mapM Datum.asNumber
  let names ← Datum.memberNames keys r.name
  return (names.zip (lower.zip (upper.zip cost))).map fun (name, lower, upper, cost) =>
    { name, lower, upper, cost }

end Request

namespace Stage

variable {α : Type} [Scalar α] [Numeral α]

def addVariable (r : Request α) : Edit α Nat := do
  let c ← Run.ofExcept r.column
  Run.ofExcept c.check
  putColumn c

/-- Add the family that is asked for. If its keys cannot tell the members apart it is refused, but
the program has its columns by then, and they remain unlisted. -/
def addFamily (axes : List (Datum α)) (r : Request α) : Edit α (List Nat) := do
  let keys ← Run.ofExcept (Datum.familyKeys axes)
  let columns ← addColumns (← Run.ofExcept (r.columns keys))
  let refuse (e : Fault α) : Edit α Unit := do
    modify fun s => { s with unlisted := s.unlisted ++ columns }
    throw e
  if !(keys.all fun key => key.all Datum.isKey) then refuse (.kind .number)
  if Datum.hasRepeats keys then refuse (.program .keys)
  return columns

end Stage

end Recourse
