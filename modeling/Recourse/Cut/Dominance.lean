import Recourse.Cut
/-!
Dominance between cuts over a box. A cut is dominated by another one if nowhere in the box it is
tighter by more than a tolerance relative to its intercept; the largest excess is taken at a corner.
-/

namespace Recourse

structure Box (α : Type) where
  lower : List (Limit α)
  upper : List (Limit α)

namespace Box

variable {α : Type} [Scalar α]

/-- The magnitude from which on a limit of a box counts as absent. -/
def threshold : α := (Nat.pow 10 100 : α)

def effective (b : Box α) : Box α :=
  { lower := b.lower.map (Limit.truncate threshold)
    upper := b.upper.map (Limit.truncate threshold) }

end Box

/-- A sum that infinite terms may enter: a number, or infinite in one direction or in both. -/
inductive Extent (α : Type) where
  | fin (a : α)
  | posInf
  | negInf
  | undefined

namespace Extent

variable {α : Type} [Scalar α]

/-- A number added to an infinite sum: one that is infinite on the other side leaves it
undefined. -/
def shift (a : α) : Extent α → Extent α
  | .posInf => if Scalar.isFinite a || decide (0 < a) then .posInf else .undefined
  | .negInf => if Scalar.isFinite a || decide (a < 0) then .negInf else .undefined
  | .fin b => .fin (a + b)
  | .undefined => .undefined

def add : Extent α → Extent α → Extent α
  | .fin a, .fin b => .fin (a + b)
  | .fin a, e => e.shift a
  | e, .fin a => e.shift a
  | .posInf, .posInf => .posInf
  | .negInf, .negInf => .negInf
  | _, _ => .undefined

def sum (es : List (Extent α)) : Extent α := es.foldl add (.fin 0)

def leNumber : Extent α → α → Bool
  | .fin a, b => decide (a ≤ b)
  | .negInf, b => Scalar.isNumber b
  | .posInf, b => Scalar.isPosInf b
  | .undefined, _ => false

/-- The largest value of `d · x` for `x` between two limits, taken at the end that the sign of `d`
points to. -/
def ofTerm (d : α) (lower upper : Limit α) : Extent α :=
  if 0 < d then
    match upper with
    | .fin u => .fin (d * u)
    | .above => .posInf
    | .below => .negInf
  else if d < 0 then
    match lower with
    | .fin l => .fin (d * l)
    | .below => .posInf
    | .above => .negInf
  else .fin 0

end Extent

namespace Cut

variable {α : Type} [Scalar α]

/-- Differences of slopes below this magnitude count as zero. -/
def slopeTolerance : α := Scalar.ratio 1 (Nat.pow 10 12)

/-- The tolerance of the dominance test, relative to the intercept of the dominated cut. -/
def dominanceTolerance (c : Cut α) : α :=
  Scalar.ratio 1 (Nat.pow 10 9) * (1 + Scalar.abs c.intercept)

/-- How much faster one slope grows than another, as a cost. -/
def slopeExcess (sense : Sense) (a b : α) : α :=
  let d := sense.orient (a - b)
  if Scalar.abs d < slopeTolerance then 0 else d

def slopeExtent (sense : Sense) (box : Box α) (as bs : List α) : Extent α :=
  Extent.sum ((List.zipWith (slopeExcess sense) as bs).zipWith (fun d (l : Limit α × Limit α) =>
    Extent.ofTerm d l.1 l.2) (box.lower.zip box.upper))

def isDominated (sense : Sense) (box : Box α) (c other : Cut α) : Bool :=
  ((Extent.fin (sense.orient (c.intercept - other.intercept))).add
    (slopeExtent sense box c.gradient other.gradient)).leNumber c.dominanceTolerance

variable [Numeral α]

/-- Whether a cut is dominated by another one. Slopes and limits are stretched to a common number of
coordinates if they are single; any other disagreement is a fault, and so is a slope that is a
text. -/
def isDominated? (sense : Sense) (box : Box α) (c other : Cut α) : Except (Fault α) Bool :=
  if c.hasText || other.hasText then .error .incomparable
  else
  let n := commonLength [c.gradient.length, other.gradient.length, box.lower.length,
    box.upper.length]
  match stretch? n c.gradient, stretch? n other.gradient, stretch? n box.lower,
      stretch? n box.upper with
  | some as, some bs, some lower, some upper =>
    .ok (isDominated sense ⟨lower, upper⟩ { c with slopes := as, noiseSlopes := [] }
      { other with slopes := bs, noiseSlopes := [] })
  | _, _, _, _ => .error (.value .lengths)

end Cut

end Recourse
