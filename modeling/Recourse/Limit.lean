import Recourse.Scalar
/-!
Limits of a variable: a number, or no limit on that side. A number of magnitude 10^20 or more limits
nothing.
-/

namespace Recourse

inductive Limit (α : Type) where
  | below
  | fin (a : α)
  | above
deriving DecidableEq, Repr, Inhabited

namespace Limit

variable {α : Type} [Scalar α]

def ofNumber (x : α) : Limit α :=
  if Scalar.isPosInf x then .above else if Scalar.isNegInf x then .below else .fin x

/-- The limit in which numbers of a magnitude from a bound on are replaced by no limit. -/
def truncate (bound : α) : Limit α → Limit α
  | .fin a => if bound ≤ a then .above else if a ≤ -bound then .below else .fin a
  | l => l

/-- The magnitude from which on a limit counts as absent. -/
def threshold : α := (Nat.pow 10 20 : α)

/-- The limit that is in force: a number beyond the threshold limits nothing. -/
def effective (l : Limit α) : Limit α := l.truncate threshold

def asLower : Limit α → Limit α
  | .fin a => if a ≤ -threshold then .below else .fin a
  | l => l

def asUpper : Limit α → Limit α
  | .fin a => if threshold ≤ a then .above else .fin a
  | l => l

/-- Whether a limit is a number where it is not none. -/
def isDefined : Limit α → Bool
  | .fin a => Scalar.isNumber a
  | _ => true

def leNumber : Limit α → α → Bool
  | .below, x => Scalar.isNumber x
  | .fin a, x => decide (a ≤ x)
  | .above, x => Scalar.isPosInf x

def numberLe : α → Limit α → Bool
  | x, .below => Scalar.isNegInf x
  | x, .fin a => decide (x ≤ a)
  | x, .above => Scalar.isNumber x

def clamp (lower upper : Limit α) (x : α) : α :=
  match lower with
  | .fin a => if x < a then a else cap x
  | _ => cap x
where
  cap (x : α) : α :=
    match upper with
    | .fin b => if b < x then b else x
    | _ => x

end Limit

end Recourse
