import Recourse.Decimal.Binary
/-!
The shortest decimal that reads back as a given floating-point number, and its text: positional for
decimal exponents from -4 to 15, with an exponent of at least two digits otherwise.
-/

namespace Recourse.Decimal

/-- The reals that round to `m · 2 ^ e`, in quarters of the unit `2 ^ e`: the end points and the
value between them. Below a power of two the gap is half as wide. -/
structure Rounding where
  low : Nat
  value : Nat
  high : Nat
  closed : Bool

def Rounding.of (m : Nat) (e : Int) : Rounding :=
  { low := if m = Nat.pow 2 52 ∧ e ≠ -1074 then 4 * m - 1 else 4 * m - 2
    value := 4 * m
    high := 4 * m + 2
    closed := m % 2 == 0 }

/-- Whether the decimal `d · 10 ^ e` lies in the interval, the unit being `2 ^ u`. -/
def Rounding.holds (r : Rounding) (u : Int) (d : Nat) (e : Int) : Bool :=
  let (ln, ld) := quotient r.low u
  let (hn, hd) := quotient r.high u
  let (ln, ld) := scaleTo ln ld e
  let (hn, hd) := scaleTo hn hd e
  if r.closed then decide (ln ≤ d * ld) && decide (d * hd ≤ hn)
  else decide (ln < d * ld) && decide (d * hd < hn)

def Rounding.best? (r : Rounding) (u : Int) (k : Nat) : Option (Nat × Int) :=
  let (vn, vd) := quotient r.value u
  let e := magnitude vn vd - (k : Int) + 1
  let (sn, sd) := scaleTo vn vd e
  let d := sn / sd
  let near := roundDiv sn sd
  let far := if near = d then d + 1 else d
  if r.holds u near e then some (near, e)
  else if r.holds u far e then some (far, e)
  else none

/-- A decimal without a zero at the end, of which rounding up to the next power of ten leaves
one. -/
def trimZero (d : Nat) (e : Int) : Nat → Nat × Int
  | 0 => (d, e)
  | n + 1 => if d % 10 = 0 then trimZero (d / 10) (e + 1) n else (d, e)

/-- The shortest decimal `d · 10 ^ e` that reads back as `m · 2 ^ q`, for positive `m`. -/
def shortest (m : Nat) (q : Int) : Nat × Int :=
  let r := Rounding.of m q
  let (d, e) := ((List.range 17).findSome? fun k => r.best? (q - 2) (k + 1)).getD (m, 0)
  trimZero d e 17

def layout (ds : String) (e : Int) : String :=
  let n : Int := ds.length
  if -4 ≤ e ∧ e < 16 then
    if e < 0 then "0." ++ padLeft (ds.length + (-e - 1).toNat) ds '0'
    else if n ≤ e + 1 then ds ++ padLeft (e + 1 - n).toNat "" '0' ++ ".0"
    else String.ofList (ds.toList.take (e + 1).toNat) ++ "." ++
      String.ofList (ds.toList.drop (e + 1).toNat)
  else
    let head := String.ofList (ds.toList.take 1)
    let tail := String.ofList (ds.toList.drop 1)
    let sign := if e < 0 then "-" else "+"
    head ++ (if tail.isEmpty then "" else "." ++ tail) ++ "e" ++ sign ++
      padLeft 2 (digits e.natAbs) '0'

def text (x : Float) : String :=
  match Binary.ofFloat x with
  | .nan => "nan"
  | .infinite negative => if negative then "-inf" else "inf"
  | .finite negative m q =>
    let body :=
      if m = 0 then "0.0"
      else
        let (d, e) := shortest m q
        let ds := digits d
        layout ds (e + ds.length - 1)
    if negative then "-" ++ body else body

end Recourse.Decimal
