import Recourse.Linear.Tableau
/-!
The simplex method on a tableau with limits. While basic variables violate their limits the sum of
the violations is reduced; after that the costs are. The final point and prices are computed once
more from the tight rows.
-/

namespace Recourse.Linear

structure Position where
  values : FloatArray
  /-- Slopes of what is being reduced, for the nonbasic variables. -/
  slopes : FloatArray
  feasible : Bool

/-- How far a limit may be missed. -/
@[inline] def slack (limit : Float) : Float :=
  if limit.isFinite then 1e-9 * (1.0 + limit.abs) else 0.0

/-- Slopes below this count as flat. -/
def flat : Float := 1e-9

/-- Entries below this are no pivots. -/
def pivotFloor : Float := 1e-9

namespace Tableau

def position (t : Tableau) : Position := Id.run do
  let values := t.values
  let mut slopes : FloatArray := ⟨Array.replicate t.n 0.0⟩
  let mut feasible := true
  for i in [0:t.m] do
    let k := t.basic[i]!
    let v := look values i
    let lo := look t.lower k
    let hi := look t.upper k
    if v < lo - slack lo then
      feasible := false
      for j in [0:t.n] do
        slopes := slopes.set! j (look slopes j - t.entry i j)
    else if v > hi + slack hi then
      feasible := false
      for j in [0:t.n] do
        slopes := slopes.set! j (look slopes j + t.entry i j)
  return { values, slopes := if feasible then t.costs else slopes, feasible }

/-- The nonbasic variable to move, with its direction: the one with the steepest slope, or the one
with the least number. -/
def entering (t : Tableau) (slopes : FloatArray) (byNumber : Bool) :
    Option (Nat × Float) := Id.run do
  let mut best : Option (Nat × Float) := none
  let mut steepest := 0.0
  let mut least := t.n + t.m
  for j in [0:t.n] do
    let k := t.nonbasic[j]!
    let g := look slopes j
    let r := look t.rest j
    let direction :=
      if g < -flat && r < look t.upper k then 1.0
      else if g > flat && r > look t.lower k then -1.0
      else 0.0
    if direction != 0.0 then
      if byNumber then
        if k < least then
          least := k
          best := some (j, direction)
      else if g.abs > steepest then
        steepest := g.abs
        best := some (j, direction)
  return best

/-- The limit that a basic variable meets when it changes at the rate `a`, if any. -/
@[inline] def obstacle (v lo hi a : Float) : Option Float :=
  if a > 0.0 then
    if v < lo - slack lo then some lo
    else if v > hi + slack hi then none
    else if hi.isFinite then some hi else none
  else
    if v > hi + slack hi then some hi
    else if v < lo - slack lo then none
    else if lo.isFinite then some lo else none

/-- The row that stops the move of column `c` first, with the length of the move and the limit met.
Of rows that stop it at nearly the same length the one with the largest pivot is taken, or the one
with the least number. -/
def leaving (t : Tableau) (values : FloatArray) (c : Nat) (direction : Float) (byNumber : Bool) :
    Option (Nat × Float × Float) := Id.run do
  let mut reach := infinity
  for i in [0:t.m] do
    let a := t.entry i c * direction
    if a.abs > pivotFloor then
      let k := t.basic[i]!
      let v := look values i
      if let some limit := obstacle v (look t.lower k) (look t.upper k) a then
        let margin := if byNumber then 0.0 else slack limit
        let length := ((limit - v).abs + margin) / a.abs
        let length := if (limit - v) * a < 0.0 then margin / a.abs else length
        if length < reach then reach := length
  let mut best : Option (Nat × Float × Float) := none
  let mut pivot := 0.0
  let mut least := t.n + t.m
  for i in [0:t.m] do
    let a := t.entry i c * direction
    if a.abs > pivotFloor then
      let k := t.basic[i]!
      let v := look values i
      if let some limit := obstacle v (look t.lower k) (look t.upper k) a then
        let exact := (limit - v) / a
        let exact := if exact < 0.0 then 0.0 else exact
        if exact ≤ reach then
          if byNumber then
            if k < least then
              least := k
              best := some (i, exact, limit)
          else if a.abs > pivot then
            pivot := a.abs
            best := some (i, exact, limit)
  return best

end Tableau

inductive Ending where
  | optimal (t : Tableau)
  | infeasible
  | unbounded
  | gaveUp

/-- Move until nothing improves. `still` counts the moves of length zero in a row; after many of
them the variables are taken by number, which rules out cycles. -/
def run (patience : Nat) : Nat → Nat → Tableau → Ending
  | 0, _, _ => .gaveUp
  | fuel + 1, still, t =>
    let byNumber := decide (patience < still)
    let p := t.position
    match t.entering p.slopes byNumber with
    | none => if p.feasible then .optimal t else .infeasible
    | some (c, direction) =>
      let k := t.nonbasic[c]!
      let lo := look t.lower k
      let hi := look t.upper k
      let width := hi - lo
      let other := if direction > 0.0 then hi else lo
      match t.leaving p.values c direction byNumber with
      | none =>
        if width.isFinite then run patience fuel 0 { t with rest := t.rest.set! c other }
        else if p.feasible then .unbounded
        else .gaveUp
      | some (r, length, limit) =>
        if width.isFinite && width ≤ length then
          run patience fuel 0 { t with rest := t.rest.set! c other }
        else
          run patience fuel (if length > 1e-12 then 0 else still + 1) (t.pivot r c limit)

def eliminate (k : Nat) (a : Array FloatArray) (b : FloatArray) : Option FloatArray := Id.run do
  let mut a := a
  let mut b := b
  for c in [0:k] do
    let mut r := c
    for i in [c:k] do
      if (look a[i]! c).abs > (look a[r]! c).abs then r := i
    if (look a[r]! c).abs < 1e-11 then return none
    let top := a[r]!
    let topValue := look b r
    a := (a.set! r a[c]!).set! c top
    b := (b.set! r (look b c)).set! c topValue
    for i in [c + 1:k] do
      let f := look a[i]! c / look top c
      if f != 0.0 then
        let mut row := a[i]!
        for j in [c:k] do
          row := row.set! j (look row j - f * look top j)
        a := a.set! i row
        b := b.set! i (look b i - f * topValue)
  let mut x : FloatArray := ⟨Array.replicate k 0.0⟩
  for back in [0:k] do
    let i := k - 1 - back
    let mut s := look b i
    for j in [i + 1:k] do
      s := s - look a[i]! j * look x j
    x := x.set! i (s / look a[i]! i)
  return some x

/-- The final point and the prices of the rows as a program that minimizes has them. -/
structure Finish where
  point : FloatArray
  prices : FloatArray

def Tableau.finish (t : Tableau) : Finish := Id.run do
  let values := t.values
  let mut point : FloatArray := ⟨Array.replicate t.n 0.0⟩
  let mut prices : FloatArray := ⟨Array.replicate t.m 0.0⟩
  for i in [0:t.m] do
    let k := t.basic[i]!
    if k < t.n then point := point.set! k (look values i)
  for j in [0:t.n] do
    let k := t.nonbasic[j]!
    if k < t.n then point := point.set! k (look t.rest j)
    else prices := prices.set! (k - t.n) (look t.costs j)
  return { point, prices }

def denseRow (n : Nat) (r : Row Float) : FloatArray :=
  r.terms.foldl (fun a (j, x) => if j < n then a.set! j (look a j + x) else a)
    ⟨Array.replicate n 0.0⟩

/-- The point and the prices computed from the tight rows: the columns at a limit are known, the
others solve the tight rows, and the prices reproduce their costs. -/
def refine (p : Program Float) (t : Tableau) : Finish := Id.run do
  let rough := t.finish
  let rows := p.rows.toArray
  let mut free : Array Nat := #[]
  for i in [0:t.m] do
    if t.basic[i]! < t.n then free := free.push t.basic[i]!
  let mut tight : Array (Nat × Float) := #[]
  for j in [0:t.n] do
    if t.n ≤ t.nonbasic[j]! then tight := tight.push (t.nonbasic[j]! - t.n, look t.rest j)
  let k := free.size
  if tight.size ≠ k then return rough
  let mut matrix : Array FloatArray := #[]
  let mut rhs := FloatArray.emptyWithCapacity k
  for (i, value) in tight do
    match rows[i]? with
    | none => return rough
    | some row =>
      let dense := denseRow t.n row
      let mut s := value
      for j in [0:t.n] do
        if t.nonbasic[j]! < t.n then
          s := s - look dense t.nonbasic[j]! * look t.rest j
      let mut line := FloatArray.emptyWithCapacity k
      for c in free do line := line.push (look dense c)
      matrix := matrix.push line
      rhs := rhs.push s
  let costs : FloatArray := ⟨(p.columns.map fun c => p.sense.orient c.cost).toArray⟩
  let mut transposed : Array FloatArray := #[]
  let mut freeCosts := FloatArray.emptyWithCapacity k
  for b in [0:k] do
    let mut line := FloatArray.emptyWithCapacity k
    for i in [0:k] do line := line.push (look matrix[i]! b)
    transposed := transposed.push line
    freeCosts := freeCosts.push (look costs free[b]!)
  match eliminate k matrix rhs, eliminate k transposed freeCosts with
  | some x, some y =>
    let mut point := rough.point
    for b in [0:k] do point := point.set! free[b]! (look x b)
    let mut prices : FloatArray := ⟨Array.replicate t.m 0.0⟩
    for i in [0:k] do prices := prices.set! tight[i]!.1 (look y i)
    return { point, prices }
  | _, _ => return rough

def Column.isEmpty (c : Column Float) : Bool := decide (upperEnd c.upper < lowerEnd c.lower)

def solve : Solver Float := fun p =>
  if p.columns.any Column.isEmpty then .infeasible
  else
    let t := Tableau.ofProgram p
    match run (2 * (t.n + t.m) + 20) (200 * (t.n + t.m) + 2000) 0 t with
    | .infeasible => .infeasible
    | .unbounded => .unbounded
    | .gaveUp => .gaveUp
    | .optimal t =>
      let f := refine p t
      let point := f.point.data.toList
      .optimal {
        point
        value := p.objective point
        duals := f.prices.data.toList.map p.sense.orient }

end Recourse.Linear
