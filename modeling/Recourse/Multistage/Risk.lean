import Recourse.Multistage
import Recourse.Datum.Text
/-!
Choosing the risk measures of a problem, stage by stage. The label of the problem tells whether any
of them differs from the plain expectation.
-/

namespace Recourse

namespace TailParameter

variable {α : Type} [Scalar α]

/-- Whether a number is a weight, from zero to one, or a level, above zero and up to one. -/
def admits (parameter : TailParameter) (x : α) : Bool :=
  decide (x ≤ 1) && match parameter with
    | .weight => decide (0 ≤ x)
    | .level => decide (0 < x)

/-- Whether a number lies outside that range. One that is comparable to nothing does not. -/
def refuses (parameter : TailParameter) (x : α) : Bool :=
  decide (1 < x) || match parameter with
    | .weight => decide (x < 0)
    | .level => decide (x ≤ 0)

def checkEach (parameter : TailParameter) : List (Datum α) → Except (Fault α) Unit
  | [] => .ok ()
  | d :: ds =>
    match d.number? with
    | none => .error (.kind .number)
    | some x => if parameter.admits x then checkEach parameter ds
      else .error (.value (.tailRange parameter))

def spread (parameter : TailParameter) (n : Nat) (d : Datum α) :
    Except (Fault α) (List (Datum α)) :=
  match d with
  | .list _ | .text _ =>
    let items := d.items?.getD []
    if items.length ≠ n then .error (.value (.tailCount parameter))
    else (checkEach parameter items).map fun _ => items
  | .bool _ | .int _ | .real _ =>
    if (d.number?.map parameter.refuses).getD false then .error (.value (.tailRange parameter))
    else .ok (List.replicate n d)
  | .null | .record _ => .error (.kind (.tailKind parameter d.kindName))

end TailParameter

namespace Multistage

variable {α : Type} [Scalar α]

def setStageMeasure (choice : Preference α) (stage : Datum α) : Run α (Multistage α) Unit := do
  let p ← get
  match stage.number? with
  | none => throw (.kind .number)
  | some x =>
    if !(decide (1 ≤ x) && decide (x < (p.horizon : α))) then throw (.value .measureStage)
    match stage.int? with
    | none => throw (.kind .number)
    | some t => set { p with measures := p.measures.set t.toNat choice }

def label : Run α (Multistage α) Unit :=
  modify fun p => { p with riskAverse := !p.measures.all Preference.isNeutral }

def laterStages (p : Multistage α) : List (Datum α) :=
  (List.range (p.horizon - 1)).map fun (i : Nat) => .int (i + 1)

def setMeasure (choice : Preference α) (stages : Datum α) : Run α (Multistage α) Unit := do
  let p ← get
  let stages ← match stages, stages.items? with
    | .null, _ => pure p.laterStages
    | _, some items => pure items
    | _, none => throw (.kind .number)
  stages.forM (setStageMeasure choice)
  label

/-- Judge each transition by average value at risk beside the expectation, with a weight and a level
for all stages or for each. -/
def setTail (weight level : Datum α) : Run α (Multistage α) Unit := do
  let p ← get
  let stages := p.laterStages
  let weights ← Run.ofExcept (TailParameter.weight.spread stages.length weight)
  let levels ← Run.ofExcept (TailParameter.level.spread stages.length level)
  (stages.zip (weights.zip levels)).forM fun (stage, l, a) =>
    setMeasure (.tail l a) (.list [stage])

end Multistage

end Recourse
