import Recourse.Stage
/-!
The cuts of a stage as a table with a column per name: the slopes, as they stand in the cuts, under
the names of the cut columns and the intercepts under `rhs`. Columns of one name share their
entries.
-/

namespace Recourse

abbrev CutTable (α : Type) := List (String × List (Datum α))

namespace CutTable

variable {α : Type} [Scalar α]

def interceptName : String := "rhs"

def ofNames (names : List String) : CutTable α :=
  names.foldl (fun t name => if t.any (·.1 == name) then t else t ++ [(name, [])]) []

def push (t : CutTable α) (name : String) (x : Datum α) : CutTable α :=
  t.map fun (n, xs) => if n == name then (n, xs ++ [x]) else (n, xs)

def pushCut (names : List String) (t : CutTable α) (c : Cut α) : CutTable α :=
  ((names.zip c.row).foldl (fun t (name, x) => t.push name x) t).push interceptName
    (.real c.intercept)

def ofCuts (names : List String) (cuts : List (Cut α)) : CutTable α :=
  cuts.foldl (pushCut names) (ofNames (names ++ [interceptName]))

def column (t : CutTable α) (name : String) : List (Datum α) := (t.lookup name).getD []

end CutTable

namespace Stage

variable {α : Type} [Scalar α]

def cutNames (s : Stage α) (c : CostToGo α) : List String := (s.cutColumns c).map s.columnName

/-- The cuts of a stage as a table. Without a cost-to-go function it has only the intercepts. -/
def cutTable (s : Stage α) : CutTable α :=
  match s.costToGo with
  | none => [(CutTable.interceptName, [])]
  | some c => CutTable.ofCuts (s.cutNames c) c.pool.cuts

end Stage

end Recourse
