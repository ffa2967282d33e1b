/-!
The numbers in which costs, probabilities and cuts are computed. The library is written once over
`Scalar`; it runs on `Float`, and it is reasoned about over an ordered field.
-/

namespace Recourse

class Scalar (α : Type) extends Zero α, One α, NatCast α, Add α, Sub α, Neg α, Mul α, Div α,
    LE α, LT α where
  leDecidable : ∀ a b : α, Decidable (a ≤ b)
  ltDecidable : ∀ a b : α, Decidable (a < b)

instance decidableLE {α : Type} [Scalar α] : DecidableLE α := Scalar.leDecidable

instance decidableLT {α : Type} [Scalar α] : DecidableLT α := Scalar.ltDecidable

instance : Scalar Float where
  zero := 0.0
  one := 1.0
  natCast := Float.ofNat
  add := Float.add
  sub := Float.sub
  neg := Float.neg
  mul := Float.mul
  div := Float.div
  le := fun a b => a ≤ b
  lt := fun a b => a < b
  leDecidable := fun a b => inferInstanceAs (Decidable (a ≤ b))
  ltDecidable := fun a b => inferInstanceAs (Decidable (a < b))

namespace Scalar

variable {α : Type} [Scalar α]

def ofInt : Int → α
  | .ofNat n => (n : α)
  | .negSucc n => -((n + 1 : Nat) : α)

/-- The magnitude of a number. Adding zero takes the sign off a zero. -/
def abs (x : α) : α := if x < 0 then -x else x + 0

/-- The first argument unless the second is strictly smaller. -/
def least (x y : α) : α := if y < x then y else x

def pow (x : α) : Nat → α
  | 0 => 1
  | n + 1 => pow x n * x

/-- Whether a number is zero, said through the order alone. -/
def isZero (x : α) : Bool := decide (x ≤ 0) && decide (0 ≤ x)

/-- Whether a number is comparable to itself. Only the result of an undefined operation is not. -/
def isNumber (x : α) : Bool := decide (x ≤ x)

/-- Whether the difference of a number to itself is zero, which it is unless the number is infinite
or undefined. -/
def isFinite (x : α) : Bool := isNumber (x - x)

def isPosInf (x : α) : Bool := !isFinite x && decide (0 < x)

def isNegInf (x : α) : Bool := !isFinite x && decide (x < 0)

/-- A sum from left to right. -/
def total (xs : List α) : α := xs.foldl (· + ·) 0

def dot (xs ys : List α) : α := total (List.zipWith (· * ·) xs ys)

def weightedRows (width : Nat) (weights : List α) (rows : List (List α)) : List α :=
  (List.range width).map fun j => dot weights (rows.map fun row => row.getD j 0)

def ratio (m n : Nat) : α := (m : α) / (n : α)

end Scalar

inductive Sense where
  | minimize
  | maximize
deriving DecidableEq, Repr, Inhabited

namespace Sense

variable {α : Type} [Scalar α]

/-- A value as a cost: unchanged when minimizing, negated when maximizing. -/
def orient : Sense → α → α
  | .minimize, x => x
  | .maximize, x => -x

end Sense

end Recourse
