import Recourse.Proofs.Mirror.Pool
import Recourse.Stage.Solve

/-! Linear programs seen from the other side. The sense is the other one and costs are negated. One
variable, the cost-to-go if there is one, may itself be counted with the other sign: then its limits
change places, its coefficients change their signs, and its cost stays. -/

namespace Recourse

variable {α : Type}

namespace Stage

variable {m : Stage α} {i : ℕ}

/-- A model whose states, noise and what comes in are variables other than the cost-to-go; while it
has none, all its rows are about variables that it has. -/
structure Proper (m : Stage α) : Prop where
  apart : ∀ i ∈ m.states ++ m.noise ++ (m.copies ++ m.noiseCopies),
    i < m.columns.length ∧ m.costToGoColumn ≠ some i
  terms : m.costToGoColumn = none → ∀ r ∈ m.rows, ∀ t ∈ r.terms, t.1 < m.columns.length

theorem Proper.state_ne (h : m.Proper) (hi : i ∈ m.states) : m.costToGoColumn ≠ some i :=
  (h.apart i (by simp [hi])).2

theorem Proper.noise_ne (h : m.Proper) (hi : i ∈ m.noise) : m.costToGoColumn ≠ some i :=
  (h.apart i (by simp [hi])).2

end Stage

variable [Field α] [LinearOrder α]

def Limit.opposite : Limit α → Limit α
  | .below => .above
  | .fin a => .fin (-a)
  | .above => .below

/-- A number that counts with the other sign at one position, if at any. -/
def signedAt (column : Option ℕ) (i : ℕ) (x : α) : α := if column = some i then -x else x

/-- A variable from the other side: with its cost negated, or with the other sign. -/
def Column.mirror (column : Option ℕ) (i : ℕ) (c : Column α) : Column α :=
  if column = some i then { c with lower := c.upper.opposite, upper := c.lower.opposite }
    else { c with cost := -c.cost }

def Row.mirror (column : Option ℕ) (r : Row α) : Row α :=
  { r with terms := r.terms.map fun t => (t.1, signedAt column t.1 t.2) }

def Program.mirror (column : Option ℕ) (P : Program α) : Program α :=
  { sense := P.sense.opposite
    columns := P.columns.mapIdx (Column.mirror column)
    rows := P.rows.map (Row.mirror column)
    constant := -P.constant }

def Optimum.mirror (column : Option ℕ) (o : Optimum α) : Optimum α :=
  { point := o.point.mapIdx (signedAt column), value := -o.value, duals := o.duals.map (-·) }

def Verdict.mirror (column : Option ℕ) : Verdict α → Verdict α
  | .optimal o => .optimal (o.mirror column)
  | .infeasible => .infeasible
  | .unbounded => .unbounded
  | .gaveUp => .gaveUp

/-- Two solvers, which may be one and the same, the second of which answers a program from the other
side with the answer of the first one to the program itself, from the other side. -/
def Solver.Mirrors (lp lp' : Solver α) : Prop :=
  ∀ column P, lp' (P.mirror column) = (lp P).mirror column

def Solution.mirror (column : Option ℕ) (x : Solution α) : Solution α :=
  { point := x.point.mapIdx (signedAt column), value := -x.value,
    duals := x.duals.map fun d => (d.1, -d.2) }

namespace Solution

variable {column : Option ℕ} (x : Solution α)

theorem valueAt_mirror (i : ℕ) : (x.mirror column).valueAt i = signedAt column i (x.valueAt i) := by
  rw [valueAt, valueAt, mirror, List.getD_eq_getElem?_getD, List.getD_eq_getElem?_getD,
    List.getElem?_mapIdx]
  cases x.point[i]? with
  | none => simp [signedAt]
  | some y => rfl

theorem price_mirror (row : ℕ) : (x.mirror column).price row = -x.price row := by
  have hlookup (duals : List (ℕ × α)) :
      ((duals.map fun d => (d.1, -d.2)).lookup row).getD 0 = -((duals.lookup row).getD 0) := by
    induction duals with
    | nil => simp
    | cons d duals ih =>
      rw [List.map_cons, List.lookup_cons, List.lookup_cons]
      cases row == d.1 with
      | true => rfl
      | false => exact ih
  exact hlookup x.duals

end Solution

/-! ### Models -/

def CostToGo.mirror (ctg : CostToGo α) : CostToGo α := { ctg with pool := ctg.pool.mirror }

namespace Stage

/-- A model from the other side, where the cost-to-go variable counts with the other sign. -/
def mirror (m : Stage α) : Stage α :=
  { m with
    sense := m.sense.opposite
    columns := m.columns.mapIdx (Column.mirror m.costToGoColumn)
    rows := m.rows.map (Row.mirror m.costToGoColumn)
    constant := -m.constant
    costToGo := m.costToGo.map CostToGo.mirror
    solution := m.solution.map (Solution.mirror m.costToGoColumn) }

variable {m : Stage α} {i : ℕ}

theorem program_mirror (m : Stage α) : m.mirror.program = m.program.mirror m.costToGoColumn := rfl

theorem columnName_mirror (m : Stage α) (i : ℕ) : m.mirror.columnName i = m.columnName i := by
  rw [columnName, columnName, mirror, List.getElem?_mapIdx]
  cases m.columns[i]? with
  | none => rfl
  | some c =>
    simp only [Option.map_some, Option.getD_some, Column.mirror]
    split_ifs <;> rfl

theorem limits_mirror (h : m.costToGoColumn ≠ some i) :
    m.mirror.lowerLimit i = m.lowerLimit i ∧ m.mirror.upperLimit i = m.upperLimit i := by
  rw [lowerLimit, lowerLimit, upperLimit, upperLimit, mirror, List.getElem?_mapIdx]
  cases m.columns[i]? with
  | none => exact ⟨rfl, rfl⟩
  | some c => simp only [Option.map_some, Option.getD_some, Column.mirror, if_neg h, and_self]

theorem outgoing_mirror (h : m.Proper) (x : Solution α) :
    m.mirror.outgoing (x.mirror m.costToGoColumn) = m.outgoing x := by
  refine Prod.ext (List.map_congr_left fun i hi => ?_) (List.map_congr_left fun i hi => ?_)
  · obtain ⟨hlower, hupper⟩ := limits_mirror (h.state_ne hi)
    rw [hlower, hupper, x.valueAt_mirror, signedAt, if_neg (h.state_ne hi)]
  · rw [x.valueAt_mirror, signedAt, if_neg (h.noise_ne hi)]

theorem ownCost_mirror (m : Stage α) (discount : α) (t : ℕ) (x : Solution α) :
    m.mirror.ownCost discount t (x.mirror m.costToGoColumn) = -m.ownCost discount t x := by
  rw [ownCost, ownCost, show m.mirror.costToGoColumn = m.costToGoColumn from rfl]
  cases hcolumn : m.costToGoColumn with
  | none => exact mul_neg _ _
  | some column =>
    dsimp only
    rw [x.valueAt_mirror, signedAt, if_pos rfl, ← mul_neg]
    congr 1
    change -x.value - _ = _
    ring

variable {ctg : CostToGo α}

theorem buildCut_mirror (m : Stage α) (ctg : CostToGo α) (value : α) (gradient state : List α)
    (noise : Option (List α))
    (stage markovState : ℤ) : m.mirror.buildCut ctg.mirror (-value)
    (gradient.map (-·)) state noise stage markovState =
      (m.buildCut ctg value gradient state noise stage markovState).map Cut.mirror := by
  have hthrough (slopes noiseSlopes noise : List α) :
      Cut.through stage markovState (-value) (slopes.map (-·)) state (noiseSlopes.map (-·)) noise =
        (Cut.through stage markovState value slopes state noiseSlopes noise).mirror := by
    simp only [Cut.through, Cut.mirror, Scalar.dot_neg_left]
    congr 1
    ring
  have hplain := hthrough gradient [] []
  rw [List.map_nil] at hplain
  unfold buildCut
  rw [show ctg.mirror.lagged = ctg.lagged from rfl, show m.mirror.states = m.states from rfl,
    ← List.map_take, ← List.map_drop]
  simp only [List.length_map, hthrough, hplain]
  split_ifs
  · rfl
  · cases noise with
    | none => rfl
    | some noise =>
      dsimp only
      split_ifs <;> rfl
  · rfl
  · rfl

end Stage

end Recourse
