import Recourse.Report.Table
import Recourse.Training
/-!
The events of a training run as lines of two tables, one for the iterations and one for the
evaluations.
-/

namespace Recourse

namespace Ending

def name : Ending → String
  | .converged => "converged"
  | .iterationLimit => "iteration_limit"
  | .timeLimit => "time_limit"
  | .interrupted => "interrupted"

def reason (maxIterations maxTime : Datum Float) : Ending → String
  | .converged => "convergence has reached"
  | .iterationLimit => s!"iteration:{maxIterations.shown} has reached"
  | .timeLimit => s!"time:{maxTime.shown} has reached"
  | .interrupted => "interruption by the user"

def warning? : Ending → Option String
  | .converged => none
  | e => some s!"SDDP stops before convergence, status: {e.name}"

end Ending

def Record.shown (r : Record Float) : String :=
  s!"<SDDP solver instance, {r.workers.shown} threads, {r.steps.shown} steps>"

namespace Report

structure TimeStyle where
  cell : Datum Float → Except (Fault Float) String
  total : Datum Float → String

namespace TimeStyle

def plain : TimeStyle := { cell := fixedCell 12 6, total := Datum.shown }

def masked (placeholder : String) : TimeStyle :=
  { cell := fun _ => .ok (Text.right 12 placeholder), total := fun _ => placeholder }

end TimeStyle

inductive Part where
  | training
  | evaluation
deriving DecidableEq

/-- The tables while the events are gone through: the sheets, the times, and the lines so far. -/
structure Pages where
  training : Sheet := .bare
  evaluation : Sheet := .bare
  trainingTime : Datum Float := .int 0
  evaluationTime : Datum Float := .int 0
  lines : List (Part × String) := []

namespace Pages

def write (p : Pages) (part : Part) (lines : List String) : Pages :=
  { p with lines := p.lines ++ (lines.flatMap Text.lines).map fun line => (part, line) }

def entries (x : Progress Float) (gap : Datum Float) : Entries :=
  let iteration : Datum Float := .int x.iteration
  match x.figure with
  | .value v =>
    { iteration, bound := .real x.bound, value := .real v, gap, time := .real x.seconds }
  | .interval low high =>
    { iteration, bound := .real x.bound, interval := .list [.real low, .real high], gap
      time := .real x.seconds }

def rowLines (sheet : Sheet) (e : Entries) (style : TimeStyle) : List String :=
  match sheet.row e style.cell with
  | .ok line => [line]
  | .error _ => []

def enter (style : TimeStyle) (p : Pages) : Note Float → Pages
  | .trainingBegins workers steps percentile =>
    let sheet := Sheet.training workers steps percentile
    { p with training := sheet, trainingTime := .int 0 }.write .training sheet.heading
  | .evaluationBegins simulations percentile =>
    let sheet := Sheet.evaluation simulations percentile
    { p with evaluation := sheet, evaluationTime := .int 0 }.write .evaluation sheet.heading
  | .iteration x =>
    let e := entries x .null
    { p with trainingTime := add p.trainingTime e.time }.write .training
      (rowLines p.training e style)
  | .evaluation x gap =>
    let e := entries x (.real gap)
    { p with evaluationTime := add p.evaluationTime e.time }.write .evaluation
      (rowLines p.evaluation e style)
  | .trainingEnds ending maxIterations maxTime =>
    p.write .training (Sheet.closing (p.training.width?.getD 0) (style.total p.trainingTime) ++
      [Sheet.reasonLine (ending.reason maxIterations maxTime)])
  | .evaluationEnds =>
    p.write .evaluation (Sheet.closing (p.evaluation.width?.getD 0) (style.total p.evaluationTime))

end Pages

def lines (style : TimeStyle) (journal : Journal Float) : List (Part × String) :=
  (journal.foldl (Pages.enter style) {}).lines

def linesOf (part : Part) (lines : List (Part × String)) : List String :=
  (lines.filter fun l => l.1 == part).map (·.2)

def isPresent (part : Part) (lines : List (Part × String)) : Bool := lines.any fun l => l.1 == part

end Report

end Recourse
