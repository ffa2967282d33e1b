import Recourse.Proofs.Linear.Duality

/-! Optima that carry their own evidence. A point and dual prices are checked by arithmetic alone:
the point is feasible, and no point within the limits is cheaper than the value says, because each
variable is worth at least its reduced cost at one of its limits. A solver whose optima are checked
is exact, whatever it does. -/

namespace Recourse

open Finset

variable {α : Type} [Field α] [LinearOrder α]

def Row.coefficient (r : Row α) (j : ℕ) : α := (r.terms.map fun t => if t.1 = j then t.2 else 0).sum

theorem Row.activity_eq_sum_range (r : Row α) {x : List α} {n : ℕ} (hx : x.length = n) :
    r.activity x = ∑ j ∈ range n, r.coefficient j * x.getD j 0 := by
  have hterm (t : ℕ × α) : t.2 * x.getD t.1 0 = ∑ j ∈ range n,
      (if t.1 = j then t.2 else 0) * x.getD j 0 := by
    simp only [ite_mul, zero_mul, sum_ite_eq, mem_range]
    split_ifs with hj
    · rfl
    · rw [List.getD_eq_getElem?_getD, List.getElem?_eq_none (by omega)]
      simp
  simp only [Row.activity, Row.coefficient, Scalar.total_eq_sum]
  induction r.terms with
  | nil => simp
  | cons t terms ih =>
    simp only [List.map_cons, List.sum_cons, ih, hterm t, add_mul, sum_add_distrib]

/-- The least that a variable is worth at a slope, if its limits see to that. -/
def Column.least (c : Column α) (slope : α) : Option α :=
  if 0 < slope then
    match c.lower.effective with
    | .fin a => some (slope * a)
    | _ => none
  else if slope < 0 then
    match c.upper.effective with
    | .fin b => some (slope * b)
    | _ => none
  else some 0

theorem Column.least_le [IsStrictOrderedRing α] {c : Column α} {slope b v : α}
    (hb : c.least slope = some b) (hv : c.Allows v) : b ≤ slope * v := by
  obtain ⟨hlower, hupper⟩ := hv
  unfold least at hb
  split_ifs at hb with hpos hneg
  · cases hl : c.lower.effective with
    | fin a =>
      rw [hl] at hb hlower
      obtain rfl := Option.some.inj hb
      have hle : a ≤ v := by simpa [Limit.leNumber] using hlower
      exact mul_le_mul_of_nonneg_left hle hpos.le
    | below => simp [hl] at hb
    | above => simp [hl] at hb
  · cases hu : c.upper.effective with
    | fin a =>
      rw [hu] at hb hupper
      obtain rfl := Option.some.inj hb
      have hle : v ≤ a := by simpa [Limit.numberLe] using hupper
      exact mul_le_mul_of_nonpos_left hle hneg.le
    | below => simp [hu] at hb
    | above => simp [hu] at hb
  · obtain rfl := Option.some.inj hb
    rw [le_antisymm (not_lt.mp hpos) (not_lt.mp hneg), zero_mul]

namespace Program

variable {P : Program α} {duals x : List α}

/-- The cost of a column less what the rows pay for it. -/
def reducedCost (P : Program α) (duals : List α) (j : ℕ) : α :=
  (P.columns.map (·.cost)).getD j 0 - ((P.rows.zip duals).map
    fun ry => ry.2 * ry.1.coefficient j).sum

def leastAt (P : Program α) (duals : List α) (j : ℕ) : Option α :=
  P.columns[j]?.bind fun c => c.least (P.sense.orient (P.reducedCost duals j))

/-- The least cost of all points within the limits, with the breaches of rows priced. -/
def dualValue (P : Program α) (duals : List α) : α :=
  P.sense.orient (P.constant + ((P.rows.zip duals).map fun ry => ry.2 * ry.1.rhs).sum) +
    ∑ j ∈ range P.columns.length, (P.leastAt duals j).getD 0

/-- A point's cost with the breaches of rows priced, column by column. -/
theorem lagrangian_eq (hx : x.length = P.columns.length) :
    P.objective x - ((P.rows.zip duals).map fun ry => ry.2 * (ry.1.activity x - ry.1.rhs)).sum =
      P.constant + ((P.rows.zip duals).map fun ry => ry.2 * ry.1.rhs).sum +
        ∑ j ∈ range P.columns.length, P.reducedCost duals j * x.getD j 0 := by
  have hbreach : ((P.rows.zip duals).map fun ry => ry.2 * (ry.1.activity x - ry.1.rhs)).sum =
      (∑ j ∈ range P.columns.length,
      ((P.rows.zip duals).map fun ry => ry.2 * ry.1.coefficient j).sum * x.getD j 0) -
        ((P.rows.zip duals).map fun ry => ry.2 * ry.1.rhs).sum := by
    induction P.rows.zip duals with
    | nil => simp
    | cons ry rest ih =>
      simp only [List.map_cons, List.sum_cons, ih, add_mul, sum_add_distrib]
      rw [ry.1.activity_eq_sum_range hx, mul_sub, mul_sum]
      simp only [mul_assoc]
      ring
  rw [hbreach, objective, Scalar.dot_eq_sum_range (n := P.columns.length) (by simp)]
  simp only [reducedCost, sub_mul, sum_sub_distrib]
  ring

variable [IsStrictOrderedRing α]

/-- Weak duality: no point within the limits is cheaper. -/
theorem dualValue_le (h : ∀ j < P.columns.length, (P.leastAt duals j).isSome) (hx : P.Within x) :
    P.dualValue duals ≤ P.sense.orient
      (P.objective x - ((P.rows.zip duals).map
        fun ry => ry.2 * (ry.1.activity x - ry.1.rhs)).sum) := by
  have hlen : x.length = P.columns.length := hx.length_eq.symm
  rw [lagrangian_eq hlen, dualValue, Sense.orient_add (P.constant + _), Sense.orient_sum]
  refine add_le_add_right (sum_le_sum fun j hj => ?_) _
  have hj : j < P.columns.length := mem_range.mp hj
  obtain ⟨b, hb⟩ := Option.isSome_iff_exists.mp (h j hj)
  have hallows : P.columns[j].Allows x[j] := (List.forall₂_iff_get.mp hx).2 j hj (by omega)
  have hleast : P.columns[j].least (P.sense.orient (P.reducedCost duals j)) = some b := by
    simpa [leastAt, hj] using hb
  have hvalue : x.getD j 0 = x[j] := by simp [List.getD_eq_getElem?_getD, hlen, hj]
  rw [hb, hvalue, mul_comm, Sense.orient_mul, mul_comm]
  exact Column.least_le hleast hallows

/-- Whether an optimum is shown to be one by its own point and prices. -/
structure Verifies (P : Program α) (o : Optimum α) : Prop where
  feasible : P.Feasible o.point
  objective : P.objective o.point = o.value
  length : o.duals.length = P.rows.length
  atLeast : ∀ ry ∈ P.rows.zip o.duals, ry.1.relation = .atLeast → 0 ≤ P.sense.orient ry.2
  atMost : ∀ ry ∈ P.rows.zip o.duals, ry.1.relation = .atMost → P.sense.orient ry.2 ≤ 0
  least : ∀ j < P.columns.length, (P.leastAt o.duals j).isSome
  tight : P.sense.orient o.value ≤ P.dualValue o.duals

end Program

instance (r : Row α) (x : List α) : Decidable (r.Holds x) :=
  match r with
  | ⟨_, _, _, .equal, _⟩ => inferInstanceAs (Decidable (_ ∧ _))
  | ⟨_, _, _, .atMost, _⟩ => inferInstanceAs (Decidable (_ ≤ _))
  | ⟨_, _, _, .atLeast, _⟩ => inferInstanceAs (Decidable (_ ≤ _))

instance (P : Program α) (x : List α) : Decidable (P.Feasible x) :=
  inferInstanceAs (Decidable (_ ∧ _ ∧ _))

instance (P : Program α) (o : Optimum α) : Decidable (P.Verifies o) :=
  decidable_of_iff
    (P.Feasible o.point ∧ P.objective o.point = o.value ∧ o.duals.length = P.rows.length ∧
      (∀ ry ∈ P.rows.zip o.duals, ry.1.relation = .atLeast → 0 ≤ P.sense.orient ry.2) ∧
      (∀ ry ∈ P.rows.zip o.duals, ry.1.relation = .atMost → P.sense.orient ry.2 ≤ 0) ∧
      (∀ j < P.columns.length, (P.leastAt o.duals j).isSome) ∧
      P.sense.orient o.value ≤ P.dualValue o.duals)
    ⟨fun ⟨h₁, h₂, h₃, h₄, h₅, h₆, h₇⟩ => ⟨h₁, h₂, h₃, h₄, h₅, h₆, h₇⟩,
      fun h => ⟨h.feasible, h.objective, h.length, h.atLeast, h.atMost, h.least, h.tight⟩⟩

/-- A solver that gives up where another one answers with an optimum that does not show itself to be
one. -/
def Solver.verified (lp : Solver α) : Solver α := fun P =>
  match lp P with
  | .optimal o => if P.Verifies o then .optimal o else .gaveUp
  | v => v

theorem Solver.verified_exact [IsStrictOrderedRing α] (lp : Solver α) : lp.verified.Exact := by
  intro P o h
  unfold verified at h
  split at h
  · split_ifs at h with hverifies
    cases h
    refine ⟨hverifies.feasible, hverifies.objective, hverifies.length, hverifies.atLeast,
      hverifies.atMost, ?_⟩
    exact fun x hx => hverifies.tight.trans (Program.dualValue_le hverifies.least hx)
  · rename_i hne
    exact absurd h (hne o)

end Recourse
