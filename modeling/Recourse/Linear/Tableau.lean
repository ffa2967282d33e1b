import Recourse.Linear.Program
/-!
The tableau of a linear program with limits on all variables. Next to the columns of the program
there is one variable per row, its activity, whose limits are given by the relation. Every basic
variable is a linear form in the nonbasic ones, and each nonbasic variable rests at one of its
limits, or at zero if it has none.
-/

namespace Recourse.Linear

/-- The tableau. Variables are numbered: first the `n` columns, then the `m` rows. -/
structure Tableau where
  n : Nat
  m : Nat
  /-- Coefficients of the basic variables, row by row. -/
  body : FloatArray
  /-- Costs of the nonbasic variables. -/
  costs : FloatArray
  basic : Array Nat
  nonbasic : Array Nat
  /-- Where the nonbasic variables rest. -/
  rest : FloatArray
  lower : FloatArray
  upper : FloatArray

def infinity : Float := 1.0 / 0.0

@[inline] def look (a : FloatArray) (i : Nat) : Float := a.get! i

def lowerEnd (l : Limit Float) : Float :=
  match l.effective with
  | .fin a => a
  | .below => -infinity
  | .above => infinity

def upperEnd (l : Limit Float) : Float := lowerEnd l

/-- Where a variable rests at first: at the limit nearer to zero, or at zero if it has none. -/
def firstRest (lo hi : Float) : Float :=
  if lo.isFinite then
    if hi.isFinite && hi.abs < lo.abs then hi else lo
  else if hi.isFinite then hi
  else 0.0

namespace Tableau

/-- The first tableau: the rows are basic and the columns rest at their limits. Costs are those of a
program that minimizes. -/
def ofProgram (p : Program Float) : Tableau := Id.run do
  let n := p.columns.length
  let m := p.rows.length
  let mut lower := FloatArray.emptyWithCapacity (n + m)
  let mut upper := FloatArray.emptyWithCapacity (n + m)
  let mut costs := FloatArray.emptyWithCapacity n
  let mut rest := FloatArray.emptyWithCapacity n
  for c in p.columns do
    let lo := lowerEnd c.lower
    let hi := upperEnd c.upper
    lower := lower.push lo
    upper := upper.push hi
    costs := costs.push (p.sense.orient c.cost)
    rest := rest.push (firstRest lo hi)
  let mut body : FloatArray := ⟨Array.replicate (n * m) 0.0⟩
  let mut i := 0
  for r in p.rows do
    for (j, a) in r.terms do
      if j < n then body := body.set! (i * n + j) (look body (i * n + j) + a)
    lower := lower.push (match r.relation with | .atMost => -infinity | _ => r.rhs)
    upper := upper.push (match r.relation with | .atLeast => infinity | _ => r.rhs)
    i := i + 1
  return {
    n, m, body, costs, rest, lower, upper
    basic := (Array.range m).map (n + ·)
    nonbasic := Array.range n }

@[inline] def entry (t : Tableau) (i j : Nat) : Float := look t.body (i * t.n + j)

def values (t : Tableau) : FloatArray := Id.run do
  let mut v := FloatArray.emptyWithCapacity t.m
  for i in [0:t.m] do
    let mut s := 0.0
    for j in [0:t.n] do
      s := s + t.entry i j * look t.rest j
    v := v.push s
  return v

/-- Exchange the basic variable of row `r` with the nonbasic variable of column `c`; the former
rests at `value` from then on. -/
def pivot (t : Tableau) (r c : Nat) (value : Float) : Tableau := Id.run do
  let n := t.n
  let p := t.entry r c
  let leaving := t.basic[r]!
  let entering := t.nonbasic[c]!
  let mut body := t.body
  -- the row of the pivot solved for the entering variable
  for j in [0:n] do
    let a := look body (r * n + j)
    body := body.set! (r * n + j) (if j = c then 1.0 / p else -a / p)
  for i in [0:t.m] do
    if i ≠ r then
      let f := look body (i * n + c)
      if f != 0.0 then
        for j in [0:n] do
          let a := look body (r * n + j)
          body := body.set! (i * n + j)
            (if j = c then f * a else look body (i * n + j) + f * a)
  let mut costs := t.costs
  let f := look costs c
  if f != 0.0 then
    for j in [0:n] do
      let a := look body (r * n + j)
      costs := costs.set! j (if j = c then f * a else look costs j + f * a)
  return { t with
    body, costs
    basic := t.basic.set! r entering
    nonbasic := t.nonbasic.set! c leaving
    rest := t.rest.set! c value }

end Tableau

end Recourse.Linear
