import Recourse.Risk.Measure
import Recourse.Datum.Grid
/-!
Risk measures applied to outcomes as users hand them in. Average value at risk orders whole numbers
exactly, in words of 64 bits while these hold them all; the sums are taken in the numbers of the
system.
-/

namespace Recourse.RiskMeasure

variable {α : Type} [Scalar α] [Numeral α]

def addends (ds : List (Datum α)) : Except (Fault α) (List α) :=
  if ds.any Datum.isText then .error (.value .notNumeric) else Datum.reals ds

def fitsUnsigned (n : Int) : Bool := decide (0 ≤ n) && decide (n < Int.pow 2 64)

/-- The negative of a whole number in a signed word: the least one is its own. -/
def negateSigned (n : Int) : Int := if n = -Int.pow 2 63 then n else -n

/-- The keys by which whole numbers are ordered, the worst first. -/
def wholeKeys (sense : Sense) (ns : List Int) : Except (Fault α) (List (Datum α)) :=
  match sense with
  | .maximize => .ok (ns.map .int)
  | .minimize =>
    if ns.all Datum.fitsWord then .ok (ns.map fun n => .int (negateSigned n))
    else if ns.all fitsUnsigned then .error .overflow
    else .ok (ns.map fun n => .int (-n))

/-- The key of a number among others that are not all whole. Whole numbers that a word holds are
taken into the number system. -/
def mixedKey (sense : Sense) (d : Datum α) : Datum α :=
  match d.int?, d with
  | some n, _ =>
    if Datum.fitsWord n || fitsUnsigned n then .real (-(sense.orient (Scalar.ofInt n)))
    else match sense with
      | .minimize => .int (-n)
      | .maximize => .int n
  | none, .real x => .real (-(sense.orient x))
  | none, d => d

def keys (sense : Sense) (ds : List (Datum α)) : Except (Fault α) (List (Datum α)) :=
  if ds.any Datum.isText then .error .incomparable
  else if ds.any fun d => d.number?.isNone then .error (.kind .number)
  else if ds.all fun d => d.int?.isSome then wholeKeys sense (ds.filterMap Datum.int?)
  else .ok (ds.map (mixedKey sense))

def keyPrecedes (a b : Datum α) : Bool :=
  match Datum.compareNumbers? a b with
  | some (some o) => o == .lt
  | _ => Datum.compareNumbers? b b != some
    (some .eq) && Datum.compareNumbers? a a == some (some .eq)

def orderOf (sense : Sense) (ds : List (Datum α)) : Except (Fault α) (List Nat) := do
  let keyed := (← keys sense ds).zipIdx
  return (keyed.mergeSort fun x y => !keyPrecedes y.1 x.1).map (·.2)

def addendRows (gradients : List (Datum α)) : Except (Fault α) (List (List α)) :=
  gradients.mapM fun row => match row with
    | .list items => addends items
    | _ => .error (.kind .number)

/-- Apply a measure to outcomes as they were given. Without probabilities they are equally
likely. -/
def applyData (m : RiskMeasure α) (sense : Sense) (values gradients : List (Datum α))
    (p : Datum α) : Except (Fault α) (Aggregate α) := do
  let probabilities : Except (Fault α) (List α) :=
    if p.isNull then .ok (uniform values.length) else p.vector
  let sum (weights : List α) : Except (Fault α) (Aggregate α) := do
    let xs ← addends values
    weigh weights xs (← addendRows gradients)
  match m with
  | .expectation => sum (← probabilities)
  | .worstCase =>
    let p ← probabilities
    let xs ← values.mapM Datum.cell
    worstOutcome sense xs p (← addendRows gradients)
  | .tail a =>
    checkLevel a
    let p ← probabilities
    sum (← weightsInOrder (← orderOf sense values) values.length p a)
  | .mixed a l =>
    checkWeight l
    checkLevel a
    let p ← probabilities
    let q ← weightsInOrder (← orderOf sense values) values.length p a
    sum (← mix l p q)

end Recourse.RiskMeasure
