import Recourse.Run
/-!
Risk measures. A measure turns the outcomes of a stage transition, each with a value, a gradient and
a probability, into one value and one gradient by weighing the outcomes anew.
-/

namespace Recourse

/-- What a measure makes of the outcomes. Without any outcome the gradient has no width. -/
structure Aggregate (α : Type) where
  value : α
  gradient : Option (List α)

/-- A measure of risk. `tail a` is average value at risk at level `a`; `mixed a l` gives it the
weight `l` beside the expectation. -/
inductive RiskMeasure (α : Type) where
  | expectation
  | worstCase
  | tail (a : α)
  | mixed (a l : α)
deriving Repr

namespace RiskMeasure

variable {α : Type} [Scalar α]

def uniform (n : Nat) : List α := List.replicate n (Scalar.ratio 1 n)

/-- Whether a number is ordered before another; one that is comparable to nothing comes last. -/
def precedes (x y : α) : Bool := decide (x < y) || (!decide (y ≤ y) && decide (x ≤ x))

def worstFirst (sense : Sense) (values : List α) : List Nat :=
  let keyed := (values.map fun v => -(sense.orient v)).zipIdx
  (keyed.mergeSort fun x y => !precedes y.1 x.1).map (·.2)

/-- Spend one unit of probability on the outcomes in the given order, each inflated by `1 / a`. The
answer pairs positions with weights. -/
def spend (p : List α) (a : α) : List Nat → α → Except (Fault α) (List (Nat × α))
  | [], _ => .ok []
  | i :: order, remaining =>
    if remaining ≤ 0 then .ok []
    else do
      let pi ← entryAt p i
      let q := Scalar.least (pi / a) remaining
      return (i, q) :: (← spend p a order (remaining - q))

def weightAt (spent : List (Nat × α)) (i : Nat) : α := (spent.lookup i).getD 0

/-- The weights of `n` outcomes when one unit of probability is spent on them in an order. -/
def weightsInOrder (order : List Nat) (n : Nat) (p : List α) (a : α) :
    Except (Fault α) (List α) := do
  let spent ← spend p a order 1
  return (List.range n).map (weightAt spent)

/-- The weights of average value at risk: the worst outcomes are inflated by `1 / a` until one unit
of probability is spent. -/
def tailWeights (sense : Sense) (values p : List α) (a : α) : Except (Fault α) (List α) :=
  weightsInOrder (worstFirst sense values) values.length p a

def weigh (weights values : List α) (rows : List (List α)) : Except (Fault α) (Aggregate α) :=
  if weights.length ≠ values.length then .error (.value .lengths)
  else if weights.length ≠ rows.length then .error (.value .lengths)
  else
    let value := Scalar.dot weights values
    match rows with
    | [] => .ok { value, gradient := none }
    | row :: _ =>
      if rows.all fun r => r.length = row.length then
        .ok { value, gradient := some (Scalar.weightedRows row.length weights rows) }
      else .error (.value .lengths)

/-- Whether a candidate for the worst case beats another one; `none` is an outcome of probability
zero, which is no better than an infinitely good one. -/
def beats : Option α → Option α → Bool
  | some x, some y => decide (y < x) || (!decide (x ≤ x) && decide (y ≤ y))
  | some x, none => !Scalar.isNegInf x
  | none, _ => false

/-- The position of the first candidate that no other one beats. -/
def worstPosition (candidates : List (Option α)) : Nat :=
  match candidates.zipIdx with
  | [] => 0
  | c :: cs => (cs.foldl (fun best x => if beats x.1 best.1 then x else best) c).2

def worstOutcome (sense : Sense) (values p : List α) (rows : List (List α)) :
    Except (Fault α) (Aggregate α) := do
  let n := commonLength [p.length, values.length]
  match stretch? n p, stretch? n values with
  | some ps, some vs =>
    if n = 0 then throw (.value .noOutcomes)
    let candidates := ps.zipWith (fun p v => if 0 < p then some (sense.orient v) else none) vs
    let i := worstPosition candidates
    let value ← entryAt values i
    match rows with
    | [] => throw .position
    | row :: _ =>
      if rows.all fun r => r.length = row.length then
        return { value, gradient := some (← entryAt rows i) }
      else throw (.value .lengths)
  | _, _ => throw (.value .lengths)

/-- Two lists of weights mixed, a single weight being stretched. -/
def mix (l : α) (p q : List α) : Except (Fault α) (List α) :=
  let n := commonLength [p.length, q.length]
  match stretch? n p, stretch? n q with
  | some ps, some qs => .ok (ps.zipWith (fun x y => (1 - l) * x + l * y) qs)
  | _, _ => .error (.value .lengths)

def checkLevel (a : α) : Except (Fault α) Unit :=
  if decide (0 < a) && decide (a ≤ 1) then .ok () else .error (.value .tailLevel)

def checkWeight (l : α) : Except (Fault α) Unit :=
  if decide (0 ≤ l) && decide (l ≤ 1) then .ok () else .error (.value (.tailRange .weight))

/-- Apply a measure to outcomes. Without probabilities the outcomes are equally likely. -/
def apply (m : RiskMeasure α) (sense : Sense) (values : List α) (rows : List (List α))
    (p : Option (List α)) : Except (Fault α) (Aggregate α) := do
  let probabilities := p.getD (uniform values.length)
  match m with
  | .expectation => weigh probabilities values rows
  | .worstCase => worstOutcome sense values probabilities rows
  | .tail a =>
    checkLevel a
    weigh (← tailWeights sense values probabilities a) values rows
  | .mixed a l =>
    checkWeight l
    checkLevel a
    let q ← tailWeights sense values probabilities a
    weigh (← mix l probabilities q) values rows

/-- The measure that a name and the given parameters describe. A parameter that is missing, that the
measure does not take or that is no number is a fault. The weight is judged before the level is
looked at. -/
def describe? (name : String) (a l : Option (Datum α)) : Except (Fault α) (RiskMeasure α) :=
  let number (d : Datum α) : Except (Fault α) α :=
    match d.number? with
    | some x => .ok x
    | none => .error (.kind .number)
  match name, a, l with
  | "Expectation", none, none => .ok .expectation
  | "WorstCase", none, none => .ok .worstCase
  | "AVaR", some a, none => do return .tail (← number a)
  | "Expectation_AVaR", some a, some l => do
    let l ← number l
    checkWeight l
    return .mixed (← number a) l
  | _, _, _ => .error (.kind .arguments)

end RiskMeasure

end Recourse
