import Recourse.Exchange.Column
import Recourse.Exchange.Csv
import Recourse.Multistage.Setup
import Recourse.Stage.CutTable
import Recourse.Text.Layout
/-!
Exchanging cuts by files: a table per model, with the slopes under the names of the columns and the
intercept last, and a file that tells where the cuts come from.
-/

namespace Recourse

abbrev Folder := List (String × String)

namespace Folder

def write (f : Folder) (name text : String) : Folder :=
  if f.any (·.1 == name) then f.map fun e => if e.1 == name then (name, text) else e
  else f ++ [(name, text)]

end Folder

structure Desk (α : Type) where
  problem : Multistage α
  folder : Folder

namespace CutFiles

variable {α : Type} [Scalar α] [Numeral α]

/-! ### Writing -/

def tableRow (columns : List (List String)) (i : Nat) : List String :=
  toString i :: columns.map fun xs => xs.getD i ""

/-- The table of the cuts of a model. Columns of different lengths make no table. -/
def tableText (m : Stage α) (c : CostToGo α) : Except (Fault α) String :=
  let table := m.cutTable
  let names := m.cutNames c ++ [CutTable.interceptName]
  let columns := names.map fun name => Exchange.Column.written (table.column name)
  let count := (table.column CutTable.interceptName).length
  if table.all fun column => column.2.length = count then
    .ok (Csv.render (("" :: names) :: (List.range count).map (tableRow columns)))
  else .error (.value .lengths)

def provenanceText (x : Provenance) : String :=
  Csv.render [["name", "author", "description"], [x.name, x.author, x.description]]

def tableName (start : String) (t k : Nat) : String :=
  start ++ toString t ++ "_" ++ toString k ++ ".csv"

def provenanceName (start : String) : String := start ++ "info.csv"

def places (p : Multistage α) : List (Nat × Nat × Stage α) :=
  (p.models.take (p.horizon - 1)).zipIdx.flatMap fun (ms, t) =>
    ms.zipIdx.map fun (m, k) => (t, k, m)

def writeFile (path text : String) : Run α (Desk α) Unit :=
  match Text.fileName? path with
  | some name => modify fun d => { d with folder := d.folder.write name text }
  | none => throw .missingFolder

def writeTable (start : String) (t k : Nat) (m : Stage α) : Run α (Desk α) Unit :=
  match m.costToGo with
  | none => pure ()
  | some c => do
    let text ← Run.ofExcept (tableText m c)
    writeFile (tableName start t k) text

def onProblem {β : Type} (act : Run α (Multistage α) β) : Run α (Desk α) β :=
  Run.zoom Desk.problem (fun problem d => { d with problem }) act

def writeCuts (start : String) (name author description : Datum α) : Run α (Desk α) Unit := do
  onProblem Multistage.prepare
  let text (d : Datum α) : String := Exchange.Column.entryText d
  writeFile (provenanceName start)
    (provenanceText { name := text name, author := text author, description := text description })
  (places (← get).problem).forM fun (t, k, m) => writeTable start t k m

/-! ### Reading -/

def contents (folder : Folder) (path : String) : Except (Fault α) Csv.Table :=
  match (Text.fileName? path).bind (folder.lookup ·) with
  | none => .error .missingFile
  | some text => Csv.parse text

/-- The entry of the first row under a name. A row that is longer than the header is named from its
end. -/
def firstUnder (t : Csv.Table) (name : String) : Except (Fault α) String :=
  match t.header.findIdx? (· == name), t.rows with
  | none, _ => .error .missingColumn
  | some _, [] => .error .position
  | some i, row :: _ => .ok (row.getD (t.width - t.header.length + i) "")

def readProvenance (folder : Folder) (start : String) : Except (Fault α) Provenance := do
  let t ← contents folder (provenanceName start)
  return {
    name := ← firstUnder t "name"
    author := ← firstUnder t "author"
    description := ← firstUnder t "description" }

/-- The rows of a table of cuts without their numbers, which stand first. The numbers may lack a
name, but nothing else may. -/
def cutRows (t : Csv.Table) : Except (Fault α) (List (List (Datum α))) := do
  if t.header.length + 1 < t.width then throw .raggedTable
  let columns := Exchange.Column.ofRows (t.width - 1) (t.rows.map (·.drop 1))
  return Exchange.Column.toRows columns t.rows.length

/-- The number of an entry, unknown if it spells none. -/
def slope (d : Datum α) : α := (d.asNumeral.toOption).getD Numeral.unknown

/-- The cut that a row spells. The columns count by position: first the slopes in the states, last
the intercept, and what is between belongs to the noise. -/
def cutOfRow (states : Nat) (t k : Nat) (row : List (Datum α)) : Except (Fault α) (Cut α) := do
  match row.getLast? with
  | none => throw .position
  | some intercept =>
    let inState := row.take states
    let inNoise := row.dropLast.drop states
    return { stage := t, markovState := k, intercept := ← intercept.asNumeral
             slopes := inState.map slope, noiseSlopes := inNoise.map slope, index := none
             entries := some (inState ++ inNoise) }

def readTable (start : String) (t k : Nat) : Run α (Desk α) Unit := do
  let d ← get
  let m ← Run.ofExcept (d.problem.model t k)
  if m.costToGo.isNone then return
  let table ← Run.ofExcept (contents d.folder (tableName start t k))
  (← Run.ofExcept (cutRows table)).forM fun row => do
    let cut ← Run.ofExcept (cutOfRow m.states.length t k row)
    let _ ← onProblem (Multistage.onModel t k (Stage.onPool (Pool.add cut)))

def readCuts (start : String) : Run α (Desk α) Provenance := do
  onProblem Multistage.prepare
  let x ← Run.ofExcept (readProvenance (← get).folder start)
  onProblem (modify fun p => { p with provenance := some x })
  (places (← get).problem).forM fun (t, k, _) => readTable start t k
  return x

end CutFiles

end Recourse
