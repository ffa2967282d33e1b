import Recourse.Report.Cell
import Recourse.Run
/-!
The tables that training and evaluation write: a heading, a row per iteration, and a closing line
with the time spent.
-/

namespace Recourse.Report

/-- A table. Where a row sums up more than one walk it shows an interval. -/
inductive Sheet where
  | training (workers steps percentile : Datum Float)
  | evaluation (simulations percentile : Datum Float)
  | bare

structure Entries where
  iteration : Datum Float
  bound : Datum Float
  value : Datum Float := .null
  interval : Datum Float := .null
  gap : Datum Float := .null
  time : Datum Float

namespace Sheet

def ofArguments (kind : String) (arguments : List (String × Datum Float)) :
    Except (Fault Float) Sheet :=
  let given (names : List String) : Bool :=
    arguments.all (fun a => names.contains a.1) && names.all fun n => arguments.any (·.1 == n)
  let argument (name : String) : Datum Float := (arguments.lookup name).getD .null
  match kind with
  | "SDDP" =>
    if given ["percentile", "n_steps", "n_processes"] then
      .ok (.training (argument "n_processes") (argument "n_steps") (argument "percentile"))
    else .error (.kind .arguments)
  | "Evaluation" =>
    if given ["percentile", "n_simulations"] then
      .ok (.evaluation (argument "n_simulations") (argument "percentile"))
    else .error (.kind .arguments)
  | _ => if arguments.isEmpty then .ok .bare else .error (.kind .arguments)

def check : Sheet → Except (Fault Float) Unit
  | .training _ steps _ => if steps.number?.isSome then .ok () else .error (.kind .number)
  | _ => .ok ()

def name : Sheet → String
  | .training _ _ _ => "SDDP"
  | .evaluation _ _ => "Evaluation"
  | .bare => ""

def hasIntervals : Sheet → Bool
  | .training _ steps _ => (steps.number?.map fun x => decide (1.0 < x)).getD false
  | .evaluation simulations _ => !(simulations.isWhole (-1) || simulations.isWhole 1)
  | .bare => false

def width? (s : Sheet) : Option Nat :=
  match s with
  | .training _ _ _ => some (if s.hasIntervals then 84 else 64)
  | .evaluation _ _ => some (if s.hasIntervals then 96 else 76)
  | .bare => none

def title : Sheet → String
  | .training workers _ _ => s!"SDDP Solver, {workers.shown} thread(s)"
  | .evaluation _ _ => "Evaluation for approximation model"
  | .bare => ""

def valueHeading (s : Sheet) : String :=
  let heading (percentile count : Datum Float) : String :=
    Text.centre 40 s!"Value {percentile.shown}% CI ({count.shown})"
  match s.hasIntervals, s with
  | true, .training _ steps percentile => heading percentile steps
  | true, .evaluation simulations percentile => heading percentile simulations
  | _, _ => Text.right 20 "Value"

def headings (s : Sheet) : String :=
  Text.right 12 "Iteration" ++ Text.right 20 "Bound" ++ s.valueHeading ++ Text.right 12 "Time" ++
    match s with
    | .evaluation _ _ => Text.right 12 "Gap"
    | _ => ""

def heading (s : Sheet) : List String :=
  match s.width? with
  | none => []
  | some width =>
    [Text.rule width, Text.centre width s.title, Text.rule width, s.headings, Text.rule width]

def row (s : Sheet) (e : Entries) (time : Datum Float → Except (Fault Float) String) :
    Except (Fault Float) String := do
  let interval ← if s.hasIntervals then ends e.interval else pure (.null, .null)
  let iteration ← wholeCell 12 e.iteration
  let bound ← fixedCell 20 6 e.bound
  let value ← if s.hasIntervals then intervalCell interval else fixedCell 20 6 e.value
  let time ← time e.time
  let gap ← match s with
    | .evaluation _ _ => fixedCell 12 4 e.gap
    | _ => pure ""
  return iteration ++ bound ++ value ++ time ++ gap

def closing (width : Nat) (seconds : String) : List String :=
  [Text.rule width, s!"Time: {seconds} seconds"]

def reasonLine (reason : String) : String := "Algorithm stops since " ++ reason

def entries (s : Sheet) (arguments : List (String × Datum Float)) : Except (Fault Float) Entries :=
  let known := match s with
    | .evaluation _ _ => ["iteration", "db", "time", "pv", "CI", "gap"]
    | _ => ["iteration", "db", "time", "pv", "CI"]
  if arguments.all fun a => known.contains a.1 then
    match arguments.lookup "iteration", arguments.lookup "db", arguments.lookup "time" with
    | some iteration, some bound, some time =>
      let argument (name : String) : Datum Float := (arguments.lookup name).getD .null
      .ok { iteration, bound, time
            value := argument "pv", interval := argument "CI", gap := argument "gap" }
    | _, _, _ => .error (.kind .arguments)
  else .error (.kind .arguments)

end Sheet

inductive Outlet where
  | file (name : String)
  | console
deriving DecidableEq

/-- A table being written: its lines so far, the time that its rows took, and whether it still has
its outlets. -/
structure Table where
  sheet : Sheet
  outlets : List Outlet
  attached : Bool
  lines : List String
  seconds : Datum Float

namespace Table

abbrev Writing := Run Float Table

def fileOutlet (sheet : Sheet) (directory : String) : Except (Fault Float) Outlet :=
  match Text.fileName? (directory ++ sheet.name ++ ".log") with
  | some name => .ok (.file name)
  | none => .error .missingFile

def new (sheet : Sheet) (toFile toConsole : Datum Float) (directory : String) :
    Except (Fault Float) Table := do
  let file ← if toFile.isWhole 0 then pure [] else pure [← fileOutlet sheet directory]
  let console := if toConsole.isWhole 0 then [] else [Outlet.console]
  sheet.check
  return { sheet, outlets := file ++ console, attached := true, lines := [], seconds := .int 0 }

def attachedCount (t : Table) : Nat := if t.attached then t.outlets.length else 0

def write (lines : List String) : Writing Unit :=
  modify fun t => if t.attached then { t with lines := t.lines ++ lines.flatMap Text.lines } else t

def heading : Writing Unit := do write (← get).sheet.heading

def row (arguments : List (String × Datum Float)) : Writing Unit := do
  let t ← get
  match t.sheet with
  | .bare => if !arguments.isEmpty then throw (.kind .arguments)
  | sheet =>
    let e ← Run.ofExcept (sheet.entries arguments)
    let line ← Run.ofExcept (sheet.row e (fixedCell 12 6))
    write [line]
    modify fun t => { t with seconds := add t.seconds e.time }

def closing (arguments : List (String × Datum Float)) : Writing Unit := do
  let t ← get
  let finish (reason : Option (Datum Float)) : Writing Unit := do
    match t.sheet.width? with
    | none => throw .missingPart
    | some width => write (Sheet.closing width t.seconds.shown)
    match reason with
    | none => pure ()
    | some (.text reason) => write [Sheet.reasonLine reason]
    | some _ => throw (.kind .number)
  match t.sheet, arguments with
  | .training _ _ _, [("reason", reason)] => finish (some reason)
  | .evaluation _ _, [] => finish none
  | .bare, [] => finish none
  | _, _ => throw (.kind .arguments)

def close : Writing Unit := modify fun t => { t with attached := false }

end Table

end Recourse.Report
