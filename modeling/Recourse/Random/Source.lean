import Recourse.Run
import Recourse.Datum.Grid
/-!
Sources of randomness and what is drawn from them: whole numbers below a limit, positions by their
probabilities, and samples without replacement.
-/

namespace Recourse

/-- A source of randomness `γ` for the numbers `α`: uniform numbers from zero to one, uniform whole
numbers below a positive limit, and new sources from seeds. -/
class Source (γ : Type) (α : outParam Type) where
  uniform : γ → α × γ
  below : Nat → γ → Nat × γ
  ofSeed : Nat → γ
  ofSeeds : List Nat → γ

namespace Source

variable {γ α : Type} [Source γ α]

/-- A uniform whole number below `n`. Nothing is drawn where there is only one. -/
def draw (n : Int) : Run α γ Nat := fun g =>
  if n ≤ 0 then (.error (.value .population), g)
  else if n = 1 then (.ok 0, g)
  else
    let (i, g) := below n.toNat g
    (.ok i, g)

def many {β : Type} (act : Run α γ β) : Nat → Run α γ (List β)
  | 0 => pure []
  | n + 1 => do
    let x ← act
    return x :: (← many act n)

def swap (xs : List Nat) (i j : Nat) : List Nat :=
  (xs.set i (xs.getD j 0)).set j (xs.getD i 0)

/-- Shuffle from the last entry down: each is swapped with one at or before it. -/
def shuffle : Nat → List Nat → γ → List Nat × γ
  | 0, xs, g => (xs, g)
  | i + 1, xs, g =>
    let (j, g) := below (i + 2) g
    shuffle i (swap xs (i + 1) j) g

def permutation (n : Nat) (g : γ) : List Nat × γ := shuffle (n - 1) (List.range n) g

variable [Scalar α]

def partialSums (p : List α) : List α :=
  ((p.foldl (fun (acc : List α × α) x =>
    let s := acc.2 + x
    (s :: acc.1, s)) ([], 0)).1).reverse

/-- The position that a uniform number points to: how many of the running sums, in units of the last
one, do not exceed it. -/
def position (p : List α) (x : α) : Nat :=
  let sums := partialSums p
  let last := sums.getLastD 1
  (sums.filter fun s => decide (s / last ≤ x)).length

/-- How far a sum of probabilities may be from one. -/
def sumTolerance : α := Scalar.ratio 1490116119384766 (Nat.pow 10 23)

def isDistribution (n : Nat) (p : List α) : Bool :=
  decide (p.length = n) && !(p.any fun x => decide (x < 0)) &&
    decide (Scalar.abs (Scalar.total p - 1) ≤ sumTolerance)

def choose (n : Nat) (p : List α) : Run α γ Nat := fun g =>
  if n = 0 then (.error (.value .population), g)
  else if isDistribution n p then
    let (x, g) := uniform g
    (.ok (position p x), g)
  else (.error (.value .distribution), g)

def firstOccurrences (xs : List Nat) : List Nat :=
  xs.foldl (fun seen x => if seen.contains x then seen else seen ++ [x]) []

def without (p : List α) (found : List Nat) : List α :=
  p.zipIdx.map fun (x, i) => if found.contains i then 0 else x

def uniforms : Nat → γ → List α × γ
  | 0, g => ([], g)
  | n + 1, g =>
    let (x, g) := uniform g
    let (xs, g) := uniforms n g
    (x :: xs, g)

/-- Positions drawn until `size` different ones are found; each round draws as many as are missing
and leaves out those already found. -/
def distinct (p : List α) (size : Nat) : Nat → List Nat → γ → List Nat × γ
  | 0, found, g => (found, g)
  | fuel + 1, found, g =>
    if size ≤ found.length then (found, g)
    else
      let (xs, g) := uniforms (size - found.length) g
      let q := without p found
      let new := firstOccurrences (xs.map (position q))
      distinct p size fuel (found ++ new) g

structure DrawRule (α : Type) where
  population : Datum α
  probability : Datum α
  size : List Int
  replace : Option Bool

namespace DrawRule

def axes (size : Datum α) : Except (Fault α) (List Int) :=
  match size with
  | .null => .ok []
  | .list items => items.mapM Datum.asWhole
  | d => d.asWhole.map fun n => [n]

def count (r : DrawRule α) : Int := r.size.foldl (· * ·) 1

variable [Numeral α]

/-- The limit below which numbers are drawn. One with a fraction is cut off. -/
def limit (r : DrawRule α) : Except (Fault α) Int :=
  match r.population with
  | .real x => match Numeral.truncate? x with
    | some n => .ok n
    | none => if Scalar.isNumber x then .error .overflow else .error (.value .population)
  | d => match d.int? with
    | some n => .ok n
    | none => .error (.value .population)

end DrawRule

def layout : List Nat → List Nat → Datum α
  | [], is => .int (is.headD 0)
  | n :: axes, is =>
    let size := axes.foldl (· * ·) 1
    .list ((List.range n).map fun i => layout axes ((is.drop (i * size)).take size))

/-- The largest limit below which a number can be drawn. -/
def largestLimit : Int := Int.pow 2 63

def drawIndependent (limit : Int) (n : Nat) : Run α γ (List Nat) := do
  if n ≠ 0 ∧ largestLimit < limit then throw (.value .population)
  many (draw limit) n

/-- Positions drawn from a population, without replacement unless it is asked for. -/
def drawFrom (population : Int) (probability : Option (List α)) (replace : Bool) (size : Nat) :
    Run α γ (List Nat) := do
  let n := population.toNat
  match probability, replace with
  | none, true => drawIndependent population size
  | none, false =>
    if population < size then throw (.value .population)
    fun g =>
      let (is, g) := permutation n g
      (.ok (is.take size), g)
  | some p, replace =>
    if !isDistribution n p then throw (.value .distribution)
    if replace then return ← many (choose n p) size
    if population < size then throw (.value .population)
    if (p.filter fun x => decide (0 < x)).length < size then throw (.value .distribution)
    fun g =>
      let (is, g) := distinct p size (1000000 + size) [] g
      (.ok is, g)

variable [Numeral α]

/-- Draw as a rule says. Without a probability and without a word on replacement the numbers are
drawn independently; with a probability alone they are drawn without replacement. -/
def drawBy (r : DrawRule α) : Run α γ (Datum α) := do
  if r.size.any fun n => decide (n < 0) then throw (.value .population)
  let size := r.count.toNat
  let is ←
    if r.probability.isNull && r.replace.isNone then
      if size = 0 then pure []
      else drawIndependent (← Run.ofExcept r.limit) size
    else match r.population.int? with
      | none => throw (.value .population)
      | some n =>
        if n ≤ 0 ∧ size ≠ 0 then throw (.value .population)
        let p ← if r.probability.isNull then pure none
          else (Run.ofExcept r.probability.vector).map some
        drawFrom n p (r.replace.getD false) size
  return layout (r.size.map Int.toNat) is

end Source

end Recourse
