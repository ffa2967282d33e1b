import Recourse.Limit
/-!
Data as users hand it in: numbers, texts, lists and records, before it is known to have the shape
that an operation needs.
-/

namespace Recourse

/-- A piece of user data over the numbers `α`. Whole numbers stay apart from the others because
their texts differ, and because they are exact. -/
inductive Datum (α : Type) where
  | null
  | bool (b : Bool)
  | int (n : Int)
  | real (x : α)
  | text (s : String)
  | list (items : List (Datum α))
  | record (fields : List (String × Datum α))
deriving Inhabited

/-- How the number system reads numbers from text and writes them, what stands for an entry left
empty, and how its numbers relate to whole numbers. -/
class Numeral (α : Type) where
  /-- The number that a text spells. -/
  read? : String → Option α
  /-- The number that a field of a table spells, taken digit by digit. -/
  scan? : String → Option α
  write : α → String
  unknown : α
  /-- The number nearest to a whole number, if the number system reaches that far. -/
  ofInt? : Int → Option α
  /-- The number nearest to a quotient, if the number system reaches that far. -/
  ofQuotient? : Int → Int → Option α
  /-- How a whole number compares with a number. -/
  compareInt : Int → α → Option Ordering
  /-- A number without its fraction, if it is finite. -/
  truncate? : α → Option Int
  /-- Whether a number is a whole multiple of another one. -/
  isMultiple : α → α → Bool

namespace Datum

variable {α : Type}

def isNull : Datum α → Bool
  | .null => true
  | _ => false

def isText : Datum α → Bool
  | .text _ => true
  | _ => false

def get? (d : Datum α) (name : String) : Option (Datum α) :=
  match d with
  | .record fields => fields.lookup name
  | _ => none

variable [Scalar α]

/-- The number that a number or a truth value stands for, close enough to compare it with a number
that is not too large. -/
def number? : Datum α → Option α
  | .bool b => some (if b then 1 else 0)
  | .int n => some (Scalar.ofInt n)
  | .real x => some x
  | _ => none

def int? : Datum α → Option Int
  | .bool b => some (if b then 1 else 0)
  | .int n => some n
  | _ => none

/-- What a loop over the datum meets: items of a list, characters of a text, names of a record. -/
def items? : Datum α → Option (List (Datum α))
  | .list items => some items
  | .text s => some (s.toList.map fun c => .text c.toString)
  | .record fields => some (fields.map fun f => .text f.1)
  | _ => none

end Datum

end Recourse
