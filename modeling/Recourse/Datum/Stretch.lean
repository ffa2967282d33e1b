import Recourse.Datum.Grid
import Recourse.Datum.Text
/-!
Arrays compared entry by entry. An array is stretched along the levels on which it has a single
item, and along those that it lacks, until it has the shape of the other one.
-/

namespace Recourse.Datum

variable {α : Type}

/-- The common length of two levels: lengths agree unless one is single. -/
def commonLevel? (m n : Nat) : Option Nat :=
  if m = n then some m else if m = 1 then some n else if n = 1 then some m else none

/-- The common shape of two arrays whose shapes are given from the innermost level outwards. -/
def commonLevels? : List Nat → List Nat → Option (List Nat)
  | [], s => some s
  | s, [] => some s
  | m :: s, n :: t => do return (← commonLevel? m n) :: (← commonLevels? s t)

def commonShape? (s t : List Nat) : Option (List Nat) :=
  (commonLevels? s.reverse t.reverse).map List.reverse

def stretched : List Nat → Nat → Datum α → List (Datum α)
  | [], _, d => [d]
  | n :: shape, rank, d =>
    if rank ≤ shape.length then (List.replicate n (stretched shape rank d)).flatten
    else match d.children with
      | [x] => (List.replicate n (stretched shape (rank - 1) x)).flatten
      | xs => xs.flatMap (stretched shape (rank - 1))

def paired? (a b : Datum α) : Option (List (Datum α × Datum α)) := do
  let s ← a.shape?
  let t ← b.shape?
  let shape ← commonShape? s t
  return (stretched shape s.length a).zip (stretched shape t.length b)

variable [Scalar α] [Numeral α]

/-- How an entry of an array is compared: as it is where all entries are whole, otherwise as a
number of the system where that reaches. -/
def leveled (whole : Bool) (d : Datum α) : Datum α :=
  if whole then d
  else match d.asNumber with
    | .ok x => .real x
    | .error _ => d

/-- Whether no entry of the first array is larger than the entry of the second one beside it. A text
among the entries makes all entries of its array texts, and those have no order beside numbers. -/
def allBelow (a b : Datum α) : Except (Fault α) Bool := do
  match paired? a b with
  | none => throw (.value .notNumeric)
  | some pairs =>
    let entries := a.leaves ++ b.leaves
    if entries.any fun d => !d.isText && d.number?.isNone then throw (.kind .number)
    match a.leaves.any isText, b.leaves.any isText with
    | true, true => return pairs.all fun (x, y) => decide (x.shown ≤ y.shown)
    | false, false =>
      let whole := entries.all fun d => d.int?.isSome
      pairs.allM fun (x, y) => reaches (leveled whole y) (leveled whole x)
    | _, _ => throw .incomparable

end Recourse.Datum
