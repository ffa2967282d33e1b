import Recourse.Fault
/-!
Tables as text with a line per record and commas between fields. A field that holds a comma, a quote
or a line feed stands in quotes, with quotes written twice.
-/

namespace Recourse.Csv

def needsQuotes (s : String) : Bool :=
  s.toList.any fun c => c = ',' || c = '"' || c = '\n'

def doubled : List Char → List Char
  | [] => []
  | c :: cs => if c = '"' then '"' :: '"' :: doubled cs else c :: doubled cs

def field (s : String) : String :=
  if needsQuotes s then "\"" ++ String.ofList (doubled s.toList) ++ "\"" else s

def line (fields : List String) : String := ",".intercalate (fields.map field) ++ "\n"

def render (records : List (List String)) : String := String.join (records.map line)

/-! ### Reading -/

inductive Place where
  | start
  | plain
  | quoted
  | closing
deriving DecidableEq

/-- A reader: what it has read of the present field and record, last piece first, the records
before, and whether the last character was a carriage return that ended a line. -/
structure Reader where
  place : Place := .start
  field : List Char := []
  fields : List String := []
  records : List (List String) := []
  touched : Bool := false
  returned : Bool := false

namespace Reader

def endField (r : Reader) : Reader :=
  { r with
    place := .start, field := [], fields := String.ofList r.field.reverse :: r.fields }

def isBlank (r : Reader) : Bool :=
  r.fields.isEmpty && !r.touched && r.field.all fun c => c = ' ' || c = '\t'

/-- End the present record; a blank line is none. -/
def endRecord (r : Reader) : Reader :=
  if r.isBlank then { r with place := .start, field := [] }
  else
    let r := r.endField
    { r with fields := [], records := r.fields.reverse :: r.records, touched := false }

def readPlain (r : Reader) (c : Char) : Reader :=
  if c = ',' then r.endField
  else if c = '\n' then r.endRecord
  else if c = '\r' then { r.endRecord with returned := true }
  else { r with place := .plain, field := c :: r.field }

def read (r : Reader) (c : Char) : Reader :=
  if r.returned && c = '\n' then { r with returned := false }
  else
    let r := { r with returned := false }
    match r.place with
    | .start =>
      if c = '"' then { r with place := .quoted, touched := true } else r.readPlain c
    | .plain => r.readPlain c
    | .quoted =>
      if c = '"' then { r with place := .closing } else { r with field := c :: r.field }
    | .closing =>
      if c = '"' then { r with place := .quoted, field := c :: r.field } else r.readPlain c

end Reader

/-- The reader after a text. A mark of the byte order in front is no part of it. -/
def readAll (s : String) : Reader :=
  let cs := match s.toList with
    | '\ufeff' :: cs => cs
    | cs => cs
  cs.foldl Reader.read {}

structure Table where
  header : List String
  rows : List (List String)

namespace Table

/-- The number of fields of a row: that of the header, or of the first row if that is longer. -/
def width (t : Table) : Nat := max t.header.length ((t.rows.head?.map List.length).getD 0)

def filled (width : Nat) (row : List String) : List String :=
  row ++ List.replicate (width - row.length) ""

end Table

/-- The table that a text spells. A quote has to be closed, and no row may be longer than both the
header and the first row; shorter rows are filled up. -/
def parse {α : Type} (s : String) : Except (Fault α) Table := do
  let r := readAll s
  if r.place = .quoted then throw .raggedTable
  match r.endRecord.records.reverse with
  | [] => throw .emptyTable
  | header :: rows =>
    let width := Table.width { header, rows }
    if rows.any fun row => width < row.length then throw .raggedTable
    return { header, rows := rows.map (Table.filled width) }

end Recourse.Csv
