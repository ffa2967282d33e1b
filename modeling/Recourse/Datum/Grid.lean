import Recourse.Datum.Number
/-!
Rectangular arrays of numbers read from nested lists. Numbers, truth values and numeric texts are
entries, and `null` is the unknown number; lists on one level have to agree in shape.
-/

namespace Recourse

/-- A rectangular array by its rank. Of arrays of rank three and more only the rank is kept. -/
inductive Grid (α : Type) where
  | scalar (x : α)
  | vector (xs : List α)
  | matrix (width : Nat) (rows : List (List α))
  | deep (rank : Nat)

namespace Grid

variable {α : Type}

def rank : Grid α → Nat
  | .scalar _ => 0
  | .vector _ => 1
  | .matrix _ _ => 2
  | .deep r => r

def toDatum : Grid α → Datum α
  | .scalar x => .real x
  | .vector xs => .list (xs.map .real)
  | .matrix _ rows => .list (rows.map fun row => .list (row.map .real))
  | .deep _ => .null

end Grid

namespace Datum

variable {α : Type}

mutual

/-- The lengths of a nested list, level by level; a list that is not rectangular has none. -/
def shape? : Datum α → Option (List Nat)
  | .list [] => some [0]
  | .list (x :: xs) => do
    let s ← shape? x
    if allOfShape s xs then some ((xs.length + 1) :: s) else none
  | _ => some []

def allOfShape (s : List Nat) : List (Datum α) → Bool
  | [] => true
  | x :: xs => (match shape? x with
      | some t => t == s
      | none => false) && allOfShape s xs

end

mutual

def leaves : Datum α → List (Datum α)
  | .list items => leavesOf items
  | d => [d]

def leavesOf : List (Datum α) → List (Datum α)
  | [] => []
  | x :: xs => leaves x ++ leavesOf xs

end

def children : Datum α → List (Datum α)
  | .list items => items
  | _ => []

/-- How deep lists may be nested in an array. -/
def deepest : Nat := 64

variable [Scalar α] [Numeral α]

def cell : Datum α → Except (Fault α) α
  | .null => .ok Numeral.unknown
  | .list _ => .error (.value .notNumeric)
  | d => d.asNumeral

def grid (d : Datum α) : Except (Fault α) (Grid α) :=
  match d.shape? with
  | none => .error (.value .notNumeric)
  | some [] => d.cell.map .scalar
  | some [_] => (d.children.mapM cell).map .vector
  | some [_, width] => (d.children.mapM fun (row : Datum α) => row.children.mapM cell).map
    (.matrix width)
  | some s =>
    if deepest < s.length then .error (.value .notNumeric)
    else (d.leaves.forM fun x => x.cell.map fun _ => ()).map fun _ => .deep s.length

def vector (d : Datum α) : Except (Fault α) (List α) := do
  match ← d.grid with
  | .vector xs => .ok xs
  | _ => .error (.value .lengths)

end Datum

end Recourse
