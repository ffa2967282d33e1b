import Recourse.Datum.Number
/-!
The parameters that a linear programming solver understands: their names, which are recognised in
any mixture of capital and small letters, and what each of them may be. Which there are is up to the
solver.
-/

namespace Recourse.Linear.Parameter

/-- What a parameter may be: a whole number or a number from a least to a greatest one, or a text.
The last entry is what it is unless it is set. -/
inductive Domain where
  | whole (least greatest usual : Int)
  | number (least greatest usual : String)
  | text (usual : String)

abbrev Table := List (Domain × List String)

/-- Only what every solver understands: whether it tells about its work. -/
def Table.plain : Table := [(.whole 0 1 1, ["OutputFlag"])]

def Table.find? (table : Table) (name : String) : Option (String × Domain) :=
  let entries := table.flatMap fun group => group.2.map fun name => (name, group.1)
  entries.find? fun entry => entry.1.toLower == name.toLower

namespace Domain

variable {α : Type} [Scalar α] [Numeral α]

def usualValue : Domain → Datum α
  | .whole _ _ usual => .int usual
  | .number _ _ usual => ((Numeral.read? usual).map Datum.real).getD .null
  | .text usual => .text usual

def fitsHalfWord (n : Int) : Bool := decide (-Int.pow 2 31 ≤ n) && decide (n < Int.pow 2 31)

def isBetween (least greatest : String) (x : α) : Bool :=
  (Numeral.read? least).any (fun a => decide (a ≤ x)) &&
    (Numeral.read? greatest).any fun b => decide (x ≤ b)

/-- The value of a parameter that is set to a datum. The word `default` takes back what was set. -/
def read (domain : Domain) (d : Datum α) : Except (Fault α) (Datum α) :=
  match d, domain with
  | .text "default", domain => .ok domain.usualValue
  | .text s, .text _ => .ok (.text s)
  | _, .text _ => .error (.kind .number)
  | d, .whole least greatest _ =>
    match d.int? with
    | none => .error (.kind .number)
    | some n =>
      if !fitsHalfWord n then .error .overflow
      else if decide (least ≤ n) && decide (n ≤ greatest) then .ok (.int n)
      else .error (.program .parameter)
  | d, .number least greatest _ => do
    let x ← d.asNumber
    if isBetween least greatest x then return .real x else throw (.program .parameter)

end Domain

def enter {α : Type} (settings : List (String × Datum α)) (name : String) (d : Datum α) :
    List (String × Datum α) :=
  if settings.any fun entry => entry.1 == name then
    settings.map fun entry => if entry.1 == name then (name, d) else entry
  else settings ++ [(name, d)]

variable {α : Type} [Scalar α] [Numeral α]

def setNamed (table : Table) (settings : List (String × Datum α)) (name : String) (d : Datum α) :
    Except (Fault α) (List (String × Datum α)) :=
  match table.find? name with
  | none => .error (.program .parameter)
  | some (name, domain) => (domain.read d).map (enter settings name)

def isChanged (table : Table) (entry : String × Datum α) : Bool :=
  match table.find? entry.1 with
  | some (_, domain) => !Datum.same entry.2 domain.usualValue
  | none => true

end Recourse.Linear.Parameter
