import Recourse.Decimal.Binary
/-!
Floating-point numbers beside whole numbers: which one is nearest to a whole number or to a
quotient, how the two compare, and which whole number is left without the fraction. All of it is
exact arithmetic on the parts of a number.
-/

namespace Recourse.Decimal

def withinRange (x : Float) : Option Float := if x.isInf then none else some x

def ofInt? (n : Int) : Option Float :=
  let x := Float.ofScientific n.natAbs false 0
  withinRange (if n < 0 then -x else x)

/-- The number nearest to `num / den`. The quotient is taken to sixty-six binary digits at least,
and what is left over sets the last one, so that the rounding is not misled. -/
def nearestQuotient (num den : Nat) : Float :=
  if num = 0 then 0.0
  else
    let shift : Int := 66 + (den.log2 : Int) - num.log2
    let (n, d) :=
      if 0 ≤ shift then (num * Nat.pow 2 shift.toNat, den)
        else (num, den * Nat.pow 2 (-shift).toNat)
    let q := if n % d = 0 then n / d else n / d ||| 1
    (Float.ofNat q).scaleB (-shift)

def ofQuotient? (m n : Int) : Option Float :=
  let x := nearestQuotient m.natAbs n.natAbs
  withinRange (if (m < 0) != (n < 0) then -x else x)

/-- The value of finite parts in units of `2 ^ e`, for an `e` that does not exceed the exponent. -/
def units (negative : Bool) (mantissa : Nat) (exponent e : Int) : Int :=
  let n : Int := mantissa * Int.pow 2 (exponent - e).toNat
  if negative then -n else n

def compareInt (n : Int) (x : Float) : Option Ordering :=
  match Binary.ofFloat x with
  | .nan => none
  | .infinite negative => some (if negative then .gt else .lt)
  | .finite negative m q =>
    let e := min q 0
    some (compare (n * Int.pow 2 (-e).toNat) (units negative m q e))

def truncate? (x : Float) : Option Int :=
  match Binary.ofFloat x with
  | .finite negative m q =>
    let n : Int := if 0 ≤ q then m * Int.pow 2 q.toNat else (m / Nat.pow 2 (-q).toNat : Nat)
    some (if negative then -n else n)
  | _ => none

/-- Whether `x` is a whole multiple of `y`. Of an infinite number only zero is. -/
def isMultiple (x y : Float) : Bool :=
  match Binary.ofFloat x, Binary.ofFloat y with
  | .finite _ m q, .finite _ n r =>
    let e := min q r
    decide (units false m q e % units false n r e = 0)
  | .finite _ m _, .infinite _ => m == 0
  | _, _ => false

end Recourse.Decimal
