import Recourse.Datum.Number
/-!
Jobs split into consecutive chunks, one chunk for each worker.
-/

namespace Recourse.Schedule

def span (lo hi : Int) : List Int :=
  (List.range (hi - lo).toNat).map fun (i : Nat) => lo + i

/-- The numbers from zero towards `n` in steps of `chunk`, not reaching `n`. -/
def starts (n chunk : Int) : List Int :=
  if 0 < chunk then (List.range ((n + chunk - 1) / chunk).toNat).map fun (i : Nat) =>
    (i : Int) * chunk
  else (List.range ((-n + -chunk - 1) / -chunk).toNat).map fun (i : Nat) => (i : Int) * chunk

def spans : List Int → List (List Int)
  | a :: b :: rest => span a b :: spans (b :: rest)
  | _ => []

variable {α : Type}

/-- Split the jobs `0, …, n - 1` into chunks of one size and what is left. -/
def split (n chunk : Int) : Except (Fault α) (List (List Int)) :=
  if chunk = 0 then .error (.value .zeroStep)
  else .ok (spans (starts n chunk ++ [n]))

variable [Scalar α] [Numeral α]

def truncated (x : α) : Except (Fault α) Int :=
  match Numeral.truncate? x with
  | some n => .ok n
  | none => if Scalar.isNumber x then .error .overflow else .error (.value .notNumeric)

/-- The numbers below this one have exact quotients. -/
def exactLimit : Nat := Nat.pow 2 53

/-- A quotient without its fraction. The quotient of a large number is rounded to a number of the
system before. -/
def quotient (n p : Int) : Except (Fault α) Int :=
  if n.natAbs < exactLimit then .ok (Int.tdiv n p)
  else match (Numeral.ofQuotient? n p : Option α) with
    | some x => truncated x
    | none => .error .overflow

/-- Split the jobs `0, …, n - 1` into chunks for `p` workers. With one job more than workers the
last worker takes two; else all chunks but the last have the same size. -/
def allocate (n p : Int) : Except (Fault α) (List (List Int)) := do
  if n - p = 1 then return (span 0 (p - 1)).map (fun i => [i]) ++ [span (p - 1) n]
  if p = 0 then throw .zeroDivision
  let q ← quotient n p
  split n (if Int.fmod n p = 0 then q else q + 1)

/-- Split jobs whose number, or that of the workers, may be no whole number. Only the number of
workers can be any number then. -/
def allocateData (jobs workers : Datum α) : Except (Fault α) (List (List Int)) := do
  match jobs.int?, workers.int? with
  | some n, some p => allocate n p
  | n?, _ =>
    let x ← jobs.asNumber
    let y ← workers.asNumber
    if Datum.compareReal (x - y) 1 == some .eq then throw (.kind .number)
    if Scalar.isZero y then throw .zeroDivision
    let q ← truncated (x / y)
    match n? with
    | some n => split n (if Numeral.isMultiple x y then q else q + 1)
    | none => throw (.kind .number)

end Recourse.Schedule
