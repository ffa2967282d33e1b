import Recourse.Fault
/-!
Data taken as numbers, and how data compare. Whole numbers compare exactly, whatever their size;
only where arithmetic needs a number of the system are they brought into it, which fails beyond its
range.
-/

namespace Recourse.Datum

variable {α : Type} [Scalar α] [Numeral α]

def ofWhole (n : Int) : Except (Fault α) α :=
  match Numeral.ofInt? n with
  | some x => .ok x
  | none => .error .overflow

def asNumber : Datum α → Except (Fault α) α
  | .bool b => .ok (if b then 1 else 0)
  | .int n => ofWhole n
  | .real x => .ok x
  | _ => .error (.kind .number)

def asWhole (d : Datum α) : Except (Fault α) Int :=
  match d.int? with
  | some n => .ok n
  | none => .error (.kind .number)

def asNumeral : Datum α → Except (Fault α) α
  | .text s => match Numeral.read? s with
    | some x => .ok x
    | none => .error (.value .notNumeric)
  | d => d.asNumber

def fitsWord (n : Int) : Bool := decide (-Int.pow 2 63 ≤ n) && decide (n < Int.pow 2 63)

def reals (ds : List (Datum α)) : Except (Fault α) (List α) := ds.mapM asNumber

/-! ### Order -/

def compareReal (x y : α) : Option Ordering :=
  if x < y then some .lt
  else if y < x then some .gt
  else if x ≤ y then some .eq
  else none

/-- How two data compare that are numbers: exactly where one is whole. -/
def compareNumbers? (a b : Datum α) : Option (Option Ordering) :=
  match a, b with
  | .real x, .real y => some (compareReal x y)
  | .real x, d => d.int?.map fun n => (Numeral.compareInt n x).map Ordering.swap
  | d, .real y => d.int?.map fun n => Numeral.compareInt n y
  | a, b => match a.int?, b.int? with
    | some m, some n => some (some (compare m n))
    | _, _ => none

mutual

/-- Whether two data are equal. Data of different kinds are not, numbers apart. -/
def same : Datum α → Datum α → Bool
  | .null, .null => true
  | .text s, .text t => s == t
  | .list xs, .list ys => sameAll xs ys
  | .list _, _ => false
  | .record _, _ => false
  | a, b => compareNumbers? a b == some (some .eq)

def sameAll : List (Datum α) → List (Datum α) → Bool
  | [], [] => true
  | x :: xs, y :: ys => same x y && sameAll xs ys
  | _, _ => false

end

mutual

/-- How two data compare: numbers by value, texts and lists from the first place where they differ.
An undefined number has no order, and data of different kinds cannot be compared. -/
def order : Datum α → Datum α → Except (Fault α) (Option Ordering)
  | .text s, .text t => .ok (some (compare s t))
  | .list xs, .list ys => orderAll xs ys
  | .list _, _ => .error (.kind .number)
  | a, b => match compareNumbers? a b with
    | some o => .ok o
    | none => .error (.kind .number)

def orderAll : List (Datum α) → List (Datum α) → Except (Fault α) (Option Ordering)
  | [], [] => .ok (some .eq)
  | [], _ :: _ => .ok (some .lt)
  | _ :: _, [] => .ok (some .gt)
  | x :: xs, y :: ys => if same x y then orderAll xs ys else order x y

end

def exceeds (a b : Datum α) : Except (Fault α) Bool := return (← order a b) == some .gt

def reaches (a b : Datum α) : Except (Fault α) Bool :=
  return match ← order a b with
    | some .gt | some .eq => true
    | _ => false

def least (a b : Datum α) : Except (Fault α) (Datum α) :=
  return if ← exceeds a b then b else a

def greatest (a b : Datum α) : Except (Fault α) (Datum α) :=
  return if ← exceeds b a then b else a

def isWhole (n : Int) (d : Datum α) : Bool := compareNumbers? d (.int n) == some (some .eq)

end Recourse.Datum
