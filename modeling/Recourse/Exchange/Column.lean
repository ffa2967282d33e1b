import Recourse.Datum.Number
import Recourse.Datum.Text
/-!
The columns of a table of numbers. A column is read as whole numbers if all of its fields spell
such, else as numbers, else as truth values, else as texts; a table that has numbers alone is one of
whole numbers or one of numbers throughout. What is written follows the same kinds.
-/

namespace Recourse.Exchange

/-- What the fields of a column are read as. Whole numbers beyond the positive end of a signed word
make a kind of their own. -/
inductive ColumnKind where
  | signed
  | unsigned
  | real
  | truth
  | text
deriving DecidableEq

namespace ColumnKind

def isNumeric : ColumnKind → Bool
  | .signed | .unsigned | .real => true
  | .truth | .text => false

end ColumnKind

structure Column (α : Type) where
  kind : ColumnKind
  entries : List (Datum α)

/-! ### Fields -/

def missingTexts : List String :=
  ["", "#N/A", "#N/A N/A", "#NA", "-1.#IND", "-1.#QNAN", "-NaN", "-nan", "1.#IND",
    "1.#QNAN", "<NA>",
   "N/A", "NA", "NULL", "NaN", "None", "n/a", "nan", "null"]

def isMissing (s : String) : Bool := missingTexts.contains s

def isBlank (c : Char) : Bool := c = ' ' || (9 ≤ c.toNat && c.toNat ≤ 13)

inductive Obstacle where
  | outside
  | other

/-- Read a field as a whole number from `lo` to `hi`. One that leaves the range is outside of it
whatever follows its digits. -/
def wholeField (lo hi : Int) (s : String) : Except Obstacle Int :=
  let (negative, cs) := match s.toList.dropWhile isBlank with
    | '-' :: cs => (true, cs)
    | '+' :: cs => (false, cs)
    | cs => (false, cs)
  let digits := cs.takeWhile Char.isDigit
  let magnitude : Nat := digits.foldl (fun n c => n * 10 + (c.toNat - 48)) 0
  let n : Int := if negative then -magnitude else magnitude
  if digits.isEmpty then .error .other
  else if n < lo || hi < n then .error .outside
  else if ((cs.drop digits.length).dropWhile isBlank).isEmpty then .ok n
  else .error .other

def signedLimit : Int := Int.pow 2 63 - 1

def signedField (s : String) : Except Obstacle Int := wholeField (-signedLimit - 1) signedLimit s

/-- Read a field as an unsigned word. One with a minus sign is taken for a number below zero,
whatever it is. -/
def unsignedField (s : String) : Except Obstacle Int :=
  if (s.toList.dropWhile isBlank).head? == some '-' then .ok (-1)
  else wholeField 0 (2 * signedLimit + 1) s

/-- Whole numbers, or nothing for missing fields, up to the first field that is neither. -/
def wholes (field : String → Except Obstacle Int) (texts : List String) :
    Except Obstacle (List (Option Int)) :=
  texts.mapM fun s => if isMissing s then .ok none else (field s).map some

def truth? (s : String) : Option Bool :=
  let word := s.toLower
  if word = "true" then some true else if word = "false" then some false else none

namespace Column

variable {α : Type} [Numeral α]

/-! ### Reading -/

def entry (s : String) (d : Datum α) : Datum α := if isMissing s then .real Numeral.unknown else d

def ofTexts (texts : List String) : Column α :=
  { kind := .text, entries := texts.map fun s => entry s (.text s) }

/-- The column of truth values, if the fields spell such. With a field missing it is one of
texts. -/
def truths? (texts : List String) : Option (Column α) := do
  let entries ← texts.mapM fun s => if isMissing s then some (entry s .null)
      else (truth? s).map .bool
  return { kind := if texts.any isMissing then .text else .truth, entries }

def numbers? (texts : List String) : Option (Column α) := do
  let entries ← texts.mapM fun s =>
    if isMissing s then some (entry s .null) else (Numeral.scan? s).map .real
  return { kind := .real, entries }

def ofOther (texts : List String) : Column α :=
  match numbers? texts with
  | some c => c
  | none => (truths? texts).getD (ofTexts texts)

def ofWholes (kind : ColumnKind) (ns : List (Option Int)) : Column α :=
  if ns.all Option.isSome then { kind, entries := ns.map fun n => .int (n.getD 0) }
  else { kind := .real
         entries := ns.map fun n => .real ((n.bind Numeral.ofInt?).getD Numeral.unknown) }

/-- The column of fields some of which are beyond the signed words. They cannot stand beside missing
fields or numbers below zero. -/
def ofLarge (texts : List String) : Column α :=
  match wholes unsignedField texts with
  | .error .other => ofOther texts
  | .error .outside => ofTexts texts
  | .ok ns =>
    if ns.all fun n => n.any (0 ≤ ·) then ofWholes .unsigned ns
    else if ns.any fun n =>
      n.any (signedLimit < ·) then { kind := .text, entries := texts.map .text }
    else ofTexts texts

def ofFields (texts : List String) : Column α :=
  match wholes signedField texts with
  | .ok ns => ofWholes .signed ns
  | .error .other => ofOther texts
  | .error .outside => ofLarge texts

def ofRows (width : Nat) (rows : List (List String)) : List (Column α) :=
  (List.range width).map fun j => ofFields (rows.map fun row => row.getD j "")

def asReal [Scalar α] (d : Datum α) : Datum α :=
  match d.asNumber with
  | .ok x => .real x
  | .error _ => d

/-- The rows that columns make up. Columns of numbers of different kinds become columns of
numbers. -/
def toRows [Scalar α] (columns : List (Column α)) (count : Nat) : List (List (Datum α)) :=
  let mixed := columns.all (fun c => c.kind.isNumeric) &&
    columns.any fun c => columns.any fun d => c.kind ≠ d.kind
  (List.range count).map fun i => columns.map fun c =>
    let d := c.entries.getD i .null
    if mixed then asReal d else d

/-! ### Writing -/

def isNumber : Datum α → Bool
  | .int _ | .real _ => true
  | _ => false

def entryText [Scalar α] : Datum α → String
  | .null => ""
  | .real x => if Scalar.isNumber x then Numeral.write x else ""
  | d => d.shown

/-- The texts of the entries of a column. Whole numbers are written as others are if these are among
them. -/
def written [Scalar α] (entries : List (Datum α)) : List String :=
  let isReal := entries.all isNumber && entries.any fun d => d.int?.isNone
  entries.map fun d => entryText (if isReal then asReal d else d)

end Column

end Recourse.Exchange
