import Recourse.Multistage.Risk
/-!
Problems to try things on: newsvendors of several kinds, a hydro reservoir, and problems small
enough to solve by hand.
-/

namespace Recourse

namespace Multistage

variable {α : Type}

def fill (content : Nat → Nat → Stage.Edit α Unit) : Run α (Multistage α) Unit := do
  let p ← get
  p.models.zipIdx.forM fun (ms, t) => (List.range ms.length).forM fun k => onModel t k (content t k)

end Multistage

namespace Problems

variable {α : Type} [Scalar α] [Numeral α]

def halves (n : Int) : α := Scalar.ofInt n / ((2 : Nat) : α)

def outline (horizon : Datum α) (bound : Datum α := .null) (sense : Int := 1) : Outline α :=
  { horizon, bound, sense := .int sense, discount := .real 1 }

def assemble (o : Outline α) (steps : Run α (Multistage α) Unit) :
    Except (Fault α) (Multistage α) := do
  let p ← Multistage.create o
  let (r, p) := steps.on p
  r.map fun _ => p

def free (name : String) (cost : α) : Stage.Edit α Nat :=
  Stage.addColumn name (.fin 0) .above cost

/-- A state without limits but zero. Only its first column is free to be chosen; the second one
holds the value that comes in. -/
def state (name : String) (cost : α) : Stage.Edit α (Nat × Nat) := do
  let (now, past) ← Stage.addState name (.fin 0) .above cost .null
  return (now.headD 0, past.headD 0)

def row (terms : List (Nat × α)) (relation : Relation) (rhs : α)
    (samples : Option (List Int) := none) : Stage.Edit α Unit := do
  let uncertainty : Option (Datum α) :=
    samples.map fun xs => .record [("rhs", .list (xs.map .int))]
  let _ ← Stage.addConstraint { terms, constant := 0, relation, rhs } (.text "") uncertainty

def newsstand (past : Nat) (demand : List Int) : Stage.Edit α Unit := do
  let sold ← free "sold" (halves 4)
  let unsatisfied ← free "unsatisfied" 0
  let recycled ← free "recycled" (halves 1)
  row [(sold, 1), (unsatisfied, 1)] .equal 0 (some demand)
  row [(sold, 1), (recycled, 1), (past, -1)] .equal 0

def newsvendor : Except (Fault α) (Multistage α) :=
  assemble (outline (.int 2) (.int 20) (-1)) <| Multistage.fill fun t _ => do
    if t = 0 then
      let _ ← state "bought" (-1)
    else
      let (_, past) ← state "bought" 0
      newsstand past ((List.range 11).map fun (i : Nat) => (i : Int))

def cautiousNewsvendor : Except (Fault α) (Multistage α) := do
  let p ← newsvendor
  let (r, p) := (Multistage.setTail (.real (halves 1)) (.real (Scalar.ratio 1 10))).on p
  r.map fun _ => p

def seasonalNewsvendor : Except (Fault α) (Multistage α) :=
  let x (n : Nat) : Datum α := .real (Scalar.ratio n 10)
  assemble (outline (.int 3) (.int 100) (-1)) do
    Multistage.setChain (.list [
      .list [.list [.int 1]],
      .list [.list [x 5, x 5]],
      .list [.list [x 3, x 7], .list [x 7, x 3]]])
    Multistage.fill fun t k => do
      let (_, past) ← state "bought" (-1)
      if t ≠ 0 then
        let level : Int := if k = 0 then 4 else 6
        newsstand past [level - 2, level + 2]

def stock : Except (Fault α) (Multistage α) :=
  assemble (outline (.int 3) (.int 0)) do
    Multistage.setChain (.list [
      .list [.list [.int 1]],
      .list [.list [.int 1, .int 0]],
      .list [.list [.real (halves 1), .real (halves 1)], .list [.int 0, .int 0]]])
    Multistage.fill fun t k => do
      let (now, past) ← Stage.addState "stock" (.fin 0) (.fin (Scalar.ofInt 10)) 0 (.int 0)
      let buy ← free "buy" (if k = 0 then 1 else Scalar.ofInt 3)
      let shortage ← free "shortage" (Scalar.ofInt 10)
      row [(past.headD 0, 1), (buy, 1), (shortage, 1), (now.headD 0, -1)] .equal 0
        (if t = 0 then none else some [0, 2])

def twoStage : Except (Fault α) (Multistage α) :=
  assemble (outline (.int 2) (.int 0)) <| Multistage.fill fun t _ => do
    if t = 0 then
      let _ ← Stage.addState "x" (.fin 1) (.fin 1) (Scalar.ofInt 10) .null
    else
      let _ ← Stage.addState "x" (.fin 1) (.fin 1) 0 .null
      let y ← free "y" 1
      row [(y, 1)] .equal (Scalar.ofInt 5)

def twoOutcomes : Except (Fault α) (Multistage α) :=
  assemble (outline (.int 2) (.int 0)) <| Multistage.fill fun t _ => do
    if t = 0 then
      let _ ← Stage.addState "x" (.fin (halves 1)) (.fin (halves 1)) 0 .null
    else
      let _ ← Stage.addState "x" (.fin 0) (.fin 1) 0 .null
      let y ← free "y" 1
      row [(y, 1)] .equal 0 (some [0, 10])

def single : Except (Fault α) (Multistage α) :=
  assemble (outline (.int 1)) <| Multistage.fill fun _ _ => do
    let x ← Stage.addColumn "x" (.fin 0) (.fin (Scalar.ofInt 2)) 1
    let y ← free "y" (Scalar.ofInt 2)
    row [(x, 1), (y, 1)] .atLeast (Scalar.ofInt 3)

def inflow (t : Nat) (lagged : Bool) : Stage.Edit α Nat := do
  let column (xs : List Int) : Datum α := .list (xs.map fun x => .list [.int x])
  let innovations := if t = 0 then [5] else [0, 1, 2]
  let coefficients : Option (Datum α) :=
    if t ≠ 0 ∧ lagged then some (.list [.list [.real (halves 1)]]) else none
  let (noise, _) ← Stage.addLaggedNoise (column innovations) coefficients (.text "inflow")
  return noise.headD 0

def reservoir (horizon : Datum α) (lagged : Bool) : Except (Fault α) (Multistage α) :=
  assemble (outline horizon (.int 0)) <| Multistage.fill fun t _ => do
    let (now, past) ← Stage.addState "volume" (.fin 0) (.fin (Scalar.ofInt 20)) 0 (.int 10)
    let noise ← inflow t lagged
    let release ← free "release" 0
    let spill ← free "spill" 0
    let thermal ← free "thermal" (Scalar.ofInt (5 + t))
    row [(now.headD 0, 1), (past.headD 0, -1), (noise, -1), (release, 1), (spill, 1)] .equal 0
    row [(release, 1), (thermal, 1)] .atLeast (Scalar.ofInt 8)

end Problems

end Recourse
