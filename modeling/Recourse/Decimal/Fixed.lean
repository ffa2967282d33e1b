import Recourse.Decimal.Binary
/-!
Decimal texts with a given number of places, positional or with an exponent, rounded from the exact
value; a half goes to the even neighbour.
-/

namespace Recourse.Decimal

/-- A whole number of units of `10 ^ -places` with a point. -/
def pointed (places : Nat) (n : Nat) : String :=
  let ds := (padLeft (places + 1) (digits n) '0').toList
  let whole := ds.length - places
  String.ofList (ds.take whole) ++ (if places = 0 then "" else "." ++ String.ofList (ds.drop whole))

def fixed (places : Nat) (x : Float) : String :=
  match Binary.ofFloat x with
  | .nan => "nan"
  | .infinite negative => if negative then "-inf" else "inf"
  | .finite negative m q =>
    let (num, den) := quotient m q
    let body := pointed places (roundDiv (num * Nat.pow 10 places) den)
    if negative then "-" ++ body else body

/-- The text of a number with one digit before the point and an exponent of at least two digits. -/
def scientific (places : Nat) (x : Float) : String :=
  match Binary.ofFloat x with
  | .nan => "nan"
  | .infinite negative => if negative then "-inf" else "inf"
  | .finite negative m q =>
    let (num, den) := quotient m q
    let (d, e) :=
      if m = 0 then (0, 0)
      else
        let e := magnitude num den
        let (sn, sd) := scaleTo num den (e - places)
        let d := roundDiv sn sd
        if Nat.pow 10 (places + 1) ≤ d then (d / 10, e + 1) else (d, e)
    let sign := if e < 0 then "-" else "+"
    let body := pointed places d ++ "e" ++ sign ++ padLeft 2 (digits e.natAbs) '0'
    if negative then "-" ++ body else body

/-- The text of a result: six places below a thousand, nine digits with an exponent from there on,
and no sign on a zero. -/
def result (x : Float) : String :=
  if x.abs < 1000 then
    let s := fixed 6 x
    if s = "-0.000000" then "0.000000" else s
  else scientific 8 x

end Recourse.Decimal
