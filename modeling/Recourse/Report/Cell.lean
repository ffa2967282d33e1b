import Recourse.Datum.Number
import Recourse.Datum.Text
import Recourse.Decimal.Fixed
import Recourse.Decimal.Read
import Recourse.Text.Layout
/-!
Cells of a report: data laid out in columns. A datum that a column cannot show is a fault.
-/

namespace Recourse.Report

/-- The fault of a datum that is no number where a column shows numbers. -/
def unsuitable {β : Type} (d : Datum Float) : Except (Fault Float) β :=
  match d with
  | .real _ | .text _ => .error (.value .format)
  | _ => .error (.kind .number)

def wholeCell (width : Nat) (d : Datum Float) : Except (Fault Float) String :=
  match d.int? with
  | some n => .ok (Text.right width (toString n))
  | none => unsuitable d

def fixedText (places : Nat) (d : Datum Float) : Except (Fault Float) String :=
  if d.number?.isSome then d.asNumber.map (Decimal.fixed places) else unsuitable d

def fixedCell (width places : Nat) (d : Datum Float) : Except (Fault Float) String :=
  (fixedText places d).map (Text.right width)

def ends (d : Datum Float) : Except (Fault Float) (Datum Float × Datum Float) :=
  match d with
  | .list (a :: b :: _) => .ok (a, b)
  | .list _ => .error .position
  | .text s =>
    match s.toList with
    | a :: b :: _ => .ok (.text a.toString, .text b.toString)
    | _ => .error .position
  | .record _ => .error .missingColumn
  | _ => .error (.kind .number)

def intervalCell (d : Datum Float × Datum Float) : Except (Fault Float) String := do
  let low ← fixedCell 19 6 d.1
  let high ← fixedText 6 d.2
  return low ++ ", " ++ Text.left 19 high

def add (a b : Datum Float) : Datum Float :=
  match a.int?, b.int? with
  | some m, some n => .int (m + n)
  | _, _ => match a.number?, b.number? with
    | some x, some y => .real (x + y)
    | _, _ => a

end Recourse.Report
