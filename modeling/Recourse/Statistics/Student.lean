import Recourse.Statistics.Interval
/-!
Student's distribution for whole degrees of freedom. The upper tail is an incomplete beta integral,
by its continued fraction; the quantile is found by bisection on the tail.
-/

namespace Recourse.Statistics.Student

def guarded (x : Float) : Float := if x.abs < 1e-300 then 1e-300 else x

/-- The continued fraction of the incomplete beta integral, by the modified Lentz recurrence. -/
def fraction (a b x : Float) : Nat → Nat → Float → Float → Float → Float
  | 0, _, _, _, h => h
  | fuel + 1, k, c, d, h =>
    let m := k.toFloat
    let even := m * (b - m) * x / ((a + 2.0 * m - 1.0) * (a + 2.0 * m))
    let d := 1.0 / guarded (1.0 + even * d)
    let c := guarded (1.0 + even / c)
    let h := h * d * c
    let odd := -(a + m) * (a + b + m) * x / ((a + 2.0 * m) * (a + 2.0 * m + 1.0))
    let d := 1.0 / guarded (1.0 + odd * d)
    let c := guarded (1.0 + odd / c)
    let factor := d * c
    if (factor - 1.0).abs < 1e-16 then h * factor
    else fraction a b x fuel (k + 1) c d (h * factor)

def betaFraction (a b x : Float) : Float :=
  let d := 1.0 / guarded (1.0 - (a + b) * x / (a + 1.0))
  fraction a b x 20000 1 1.0 d d

/-- `Γ((n + 1) / 2) / (Γ(n / 2) √π)` by its recurrence in steps of two. -/
def gammaRatio (n : Nat) : Float :=
  let start := if n % 2 = 1 then 1.0 / 3.141592653589793 else 0.5
  (List.range ((n - 1) / 2)).foldl (fun r i =>
    let k := (if n % 2 = 1 then 1.0 else 2.0) + 2.0 * i.toFloat
    r * (k + 1.0) / k) start

/-- The probability of exceeding a positive `t` with `n` degrees of freedom. -/
def upperTail (n : Nat) (t : Float) : Float :=
  let nu := n.toFloat
  let x := nu / (nu + t * t)
  let y := t * t / (nu + t * t)
  let front := gammaRatio n * Float.exp (0.5 * nu * Float.log x) * y.sqrt
  if x < (nu / 2.0 + 1.0) / (nu / 2.0 + 2.5) then
    front * betaFraction (nu / 2.0) 0.5 x / nu
  else 0.5 - front * betaFraction 0.5 (nu / 2.0) y

/-- Halve an interval of `t` in which the tail passes `p`. -/
def bisect (n : Nat) (p : Float) : Nat → Float → Float → Float
  | 0, lo, hi => 0.5 * (lo + hi)
  | fuel + 1, lo, hi =>
    let mid := 0.5 * (lo + hi)
    if upperTail n mid > p then bisect n p fuel mid hi else bisect n p fuel lo mid

/-- Double the end of an interval until the tail there is at most `p`. -/
def bracket (n : Nat) (p : Float) : Nat → Float → Float
  | 0, hi => hi
  | fuel + 1, hi => if upperTail n hi > p then bracket n p fuel (2.0 * hi) else hi

def upperQuantile (n : Nat) (p : Float) : Float :=
  if p == 0.5 then 0.0
  else
    let hi := bracket n p 1000 1.0
    bisect n p 100 (if hi == 1.0 then 0.0 else hi / 2.0) hi

def quantile (level : Float) (degrees : Int) : Float :=
  if degrees ≤ 0 || level.isNaN || level < 0.0 || level > 1.0 then 0.0 / 0.0
  else if level == 1.0 then 1.0 / 0.0
  else if level == 0.0 then -(1.0 / 0.0)
  else if level < 0.5 then -upperQuantile degrees.toNat level
  else upperQuantile degrees.toNat (1.0 - level)

end Recourse.Statistics.Student

namespace Recourse

instance : Inference Float where
  sqrt := Float.sqrt
  studentQuantile := Statistics.Student.quantile

end Recourse
