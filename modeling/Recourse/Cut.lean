import Recourse.Run
import Recourse.Datum.Number
/-!
Cuts: affine bounds of a cost-to-go function in the state and, where the noise is autoregressive, in
the noise of the stage.
-/

namespace Recourse

/-- An affine bound of the cost-to-go of a Markov state of a stage. The pool that stores a cut gives
it an index. The slopes of a cut that was read from a table are also kept as they stood there. -/
structure Cut (α : Type) where
  stage : Int
  markovState : Int
  intercept : α
  slopes : List α
  noiseSlopes : List α
  index : Option Nat
  entries : Option (List (Datum α)) := none

namespace Cut

variable {α : Type} [Scalar α]

def gradient (c : Cut α) : List α := c.slopes ++ c.noiseSlopes

def row (c : Cut α) : List (Datum α) := c.entries.getD (c.gradient.map .real)

def value (c : Cut α) (state noise : List α) : α :=
  c.intercept + Scalar.dot c.slopes state + Scalar.dot c.noiseSlopes noise

/-- The value of a cut at a point that may not fit. A cut without noise slopes ignores the noise. -/
def value? (c : Cut α) (state : List α) (noise : Option (List α)) : Except (Fault α) α :=
  if c.slopes.length ≠ state.length then .error (.value .lengths)
  else if c.noiseSlopes.isEmpty then .ok (c.value state [])
  else match noise with
    | none => .error (.kind .number)
    | some noise =>
      if c.noiseSlopes.length ≠ noise.length then .error (.value .lengths)
      else .ok (c.value state noise)

/-- The cut that touches the value `v` at a trial point and has the given slopes. -/
def through (stage markovState : Int) (v : α) (slopes state noiseSlopes noise : List α) : Cut α :=
  { stage, markovState, slopes, noiseSlopes
    intercept := v - Scalar.dot slopes state - Scalar.dot noiseSlopes noise
    index := none }

variable [Numeral α]

def checkEntries (c : Cut α) (inNoise : Bool) : Except (Fault α) Unit :=
  let entries := if inNoise then c.row.drop c.slopes.length else c.row.take c.slopes.length
  entries.forM fun d => d.asNumeral.map fun _ => ()

def hasText (c : Cut α) : Bool := c.row.any Datum.isText

end Cut

end Recourse
