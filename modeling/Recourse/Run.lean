import Recourse.Fault
/-!
Operations that change a state and may fail. A failing operation keeps the state that it left
behind, since later operations go on from there.
-/

namespace Recourse

/-- An operation on a state `σ` with an answer or a fault. -/
abbrev Run (α σ : Type) := ExceptT (Fault α) (StateM σ)

namespace Run

variable {α σ τ β : Type}

def on (act : Run α σ β) (s : σ) : Except (Fault α) β × σ := act s

def ofExcept (r : Except (Fault α) β) : Run α σ β := fun s => (r, s)

/-- Break off here if an interrupt strikes. -/
def breakOff (struck : Bool) : Run α σ Unit := if struck then throw .interrupted else pure ()

/-- An operation that comes to an answer of its own when an interrupt strikes that is on its way. -/
def interruptible (coming : Bool) (answer : β) (act : Run α σ β) : Run α σ β := fun s =>
  match act s with
  | (.error .interrupted, s) => (if coming then .ok answer else .error .interrupted, s)
  | r => r

def zoom (part : σ → τ) (put : τ → σ → σ) (act : Run α τ β) : Run α σ β := fun s =>
  let (r, t) := act (part s)
  (r, put t s)

def entry (i : Nat) (act : Run α σ β) : Run α (List σ) β := fun xs =>
  match xs[i]? with
  | none => (.error .position, xs)
  | some x =>
    let (r, x) := act x
    (r, xs.set i x)

end Run

variable {α : Type}

def entryAt {β : Type} (xs : List β) (i : Nat) : Except (Fault α) β :=
  match xs[i]? with
  | some x => .ok x
  | none => .error .position

/-- A position that may be counted from the end: `-1` is the last. -/
def resolve (i : Int) (length : Nat) : Option Nat :=
  let j := if i < 0 then i + length else i
  if 0 ≤ j ∧ j < length then some j.toNat else none

/-- The entry of a list at a position that may be counted from the end. -/
def entryFrom {β : Type} (xs : List β) (i : Int) : Except (Fault α) β :=
  match (resolve i xs.length).bind (xs[·]?) with
  | some x => .ok x
  | none => .error .position

def leading {β : Type} (limit : Option Nat) (xs : List β) : List β :=
  match limit with
  | none => xs
  | some n => xs.take n

/-- A list stretched to a length: a single entry is repeated. -/
def stretch? {β : Type} (n : Nat) (xs : List β) : Option (List β) :=
  match xs with
  | [x] => some (List.replicate n x)
  | _ => if xs.length = n then some xs else none

/-- The length that lists are stretched to: that of those which are not single. -/
def commonLength (lengths : List Nat) : Nat :=
  (lengths.find? (· ≠ 1)).getD 1

end Recourse
