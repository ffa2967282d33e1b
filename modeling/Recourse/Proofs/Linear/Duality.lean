import Recourse.Proofs.Scalar
import Recourse.Linear.Program

/-! What an exact solver promises, and what follows when the right-hand sides of some rows move.
Dual prices certify a value: no point within the limits has a smaller cost, even if it breaks rows,
once the breaches are priced. So the prices of the rows that moved support the optimal value. -/

namespace Recourse

variable {α : Type} [Field α] [LinearOrder α]

def Column.Allows (c : Column α) (v : α) : Prop :=
  c.lower.effective.leNumber v = true ∧ Limit.numberLe v c.upper.effective = true

namespace Program

def Within (P : Program α) (x : List α) : Prop := List.Forall₂ Column.Allows P.columns x

theorem feasible_iff {P : Program α} {x : List α} :
    P.Feasible x ↔ P.Within x ∧ ∀ r ∈ P.rows, r.Holds x := by
  simp only [Feasible, Within, Column.Allows, List.forall₂_iff_zip, Prod.forall, and_assoc, eq_comm]

/-- Whether dual prices certify that a value is optimal: they have the signs that the relations ask
for, and the cost of a point, less its priced breaches of the rows, is never smaller. -/
structure Certifies (P : Program α) (duals : List α) (value : α) : Prop where
  length : duals.length = P.rows.length
  atLeast : ∀ ry ∈ P.rows.zip duals, ry.1.relation = .atLeast → 0 ≤ P.sense.orient ry.2
  atMost : ∀ ry ∈ P.rows.zip duals, ry.1.relation = .atMost → P.sense.orient ry.2 ≤ 0
  bound : ∀ x, P.Within x → P.sense.orient value ≤ P.sense.orient
    (P.objective x - ((P.rows.zip duals).map fun ry => ry.2 * (ry.1.activity x - ry.1.rhs)).sum)

structure IsOptimum (Q : Program α) (o : Optimum α) : Prop where
  feasible : Q.Feasible o.point
  value : Q.objective o.point = o.value
  least : ∀ y, Q.Feasible y → Q.sense.orient o.value ≤ Q.sense.orient (Q.objective y)

end Program

/-- Whether the optima that a solver finds are optimal points with optimal dual prices. -/
def Solver.Exact (lp : Solver α) : Prop :=
  ∀ P o, lp P = .optimal o →
    P.Feasible o.point ∧ P.objective o.point = o.value ∧ P.Certifies o.duals o.value

namespace Program

variable {P : Program α} {duals x : List α} {value : α}

section Prices

variable {ids : List ℕ} {d : List α}

def price (rows : List (Row α)) (duals : List α) (id : ℕ) : α :=
  (((rows.map (·.id)).zip duals).lookup id).getD 0

theorem price_of_not_mem {rows : List (Row α)} {id : ℕ} (h : id ∉ rows.map (·.id))
    (duals : List α) :
    price rows duals id = 0 := by
  have hnone : ((rows.map (·.id)).zip duals).lookup id = none := by
    rw [List.lookup_eq_none_iff]
    rintro ⟨j, y⟩ hy
    have hne : id ≠ j := by
      rintro rfl
      exact h (List.of_mem_zip hy).1
    simpa using hne
  rw [price, hnone]
  rfl

private theorem dot_map_add (f g : ℕ → α) (ids : List ℕ) (d : List α) :
    Scalar.dot (ids.map fun id => f id + g id) d = Scalar.dot (ids.map f) d + Scalar.dot
      (ids.map g) d := by
  induction ids generalizing d with
  | nil => simp
  | cons id ids ih =>
    cases d with
    | nil => simp
    | cons v d =>
      simp only [List.map_cons, Scalar.dot_cons, ih]
      ring

private theorem dot_map_single (hids : ids.Nodup) (hd : d.length = ids.length) (id : ℕ) (y δ : α)
    (hδ : ∀ i : ℕ, ids[i]? = some id → d[i]? = some δ) :
    Scalar.dot (ids.map fun j => if j = id then y else 0) d = if id ∈ ids then y * δ else 0 := by
  induction ids generalizing d with
  | nil => simp
  | cons j ids ih =>
    obtain ⟨v, d, rfl⟩ := List.exists_cons_of_length_eq_add_one hd
    rw [List.nodup_cons] at hids
    have hrest := ih (d := d) hids.2 (by simpa using hd) fun i hi => hδ (i + 1) hi
    rw [List.map_cons, Scalar.dot_cons, hrest]
    by_cases hj : j = id
    · subst hj
      have hv : v = δ := by simpa using hδ 0 rfl
      simp [hids.1, hv]
    · simp [hj, Ne.symm hj]

/-- The priced breaches of the rows with identifiers from a list, as the prices against a
displacement. -/
theorem dot_price (hids : ids.Nodup) (hd : d.length = ids.length) {rows : List (Row α)}
    (hrows : (rows.map (·.id)).Nodup)
    (hδ : ∀ r ∈ rows, ∀ i : ℕ, ids[i]? = some r.id → d[i]? = some (r.activity x - r.rhs))
    (duals : List α) :
    Scalar.dot (ids.map (price rows duals)) d =
      ((rows.zip duals).map fun ry => if ry.1.id ∈ ids then ry.2 * (ry.1.activity x - ry.1.rhs)
        else 0).sum := by
  induction rows generalizing duals with
  | nil =>
    have : price [] duals = fun _ => (0 : α) := rfl
    simp [this]
  | cons r rows ih =>
    cases duals with
    | nil =>
      have : price (r :: rows) [] = fun _ => (0 : α) := by
        funext id
        simp [price]
      simp [this]
    | cons y duals =>
      rw [List.map_cons, List.nodup_cons] at hrows
      have hsplit : ∀ id, price (r :: rows) (y :: duals) id =
          (if id = r.id then y else 0) + price rows duals id := by
        intro id
        by_cases hid : id = r.id
        · subst hid
          rw [price_of_not_mem hrows.1]
          simp [price]
        · simp [price, List.lookup_cons, hid, beq_false_of_ne hid]
      simp only [funext hsplit, dot_map_add, List.zip_cons_cons, List.map_cons, List.sum_cons]
      rw [dot_map_single hids hd r.id y _ (hδ r (by simp)),
        ih hrows.2 fun r' hr' => hδ r' (by simp [hr'])]

end Prices

variable [IsStrictOrderedRing α]

theorem Certifies.orient_breach_nonneg (h : P.Certifies duals value) {ry : Row α × α}
    (hry : ry ∈ P.rows.zip duals) (hx : ry.1.Holds x) :
    0 ≤ P.sense.orient (ry.2 * (ry.1.activity x - ry.1.rhs)) := by
  rw [mul_comm, Sense.orient_mul]
  cases hrel : ry.1.relation with
  | equal =>
    simp only [Row.Holds, hrel] at hx
    rw [le_antisymm hx.1 hx.2, sub_self, zero_mul]
  | atLeast =>
    simp only [Row.Holds, hrel] at hx
    exact mul_nonneg (sub_nonneg.mpr hx) (h.atLeast ry hry hrel)
  | atMost =>
    simp only [Row.Holds, hrel] at hx
    exact mul_nonneg_of_nonpos_of_nonpos (sub_nonpos.mpr hx) (h.atMost ry hry hrel)

/-- No point is better than a certified value. -/
theorem Certifies.le_objective (h : P.Certifies duals value) (hx : P.Feasible x) :
    P.sense.orient value ≤ P.sense.orient (P.objective x) := by
  obtain ⟨hwithin, hrows⟩ := feasible_iff.mp hx
  have hbreach : 0 ≤ P.sense.orient
      ((P.rows.zip duals).map fun ry => ry.2 * (ry.1.activity x - ry.1.rhs)).sum := by
    rw [Sense.orient_list_sum]
    refine List.sum_nonneg fun v hv => ?_
    obtain ⟨w, hw, rfl⟩ := List.mem_map.mp hv
    obtain ⟨ry, hry, rfl⟩ := List.mem_map.mp hw
    exact h.orient_breach_nonneg hry (hrows ry.1 (List.of_mem_zip hry).1)
  have hbound := h.bound x hwithin
  rw [Sense.orient_sub] at hbound
  linarith

/-- A certified value, moved along the prices of the rows that a point breaks, is no worse than the
value at that point. -/
theorem Certifies.support (h : P.Certifies duals value) {ids : List ℕ} {d : List α}
    (hx : P.Within x) (hids : ids.Nodup) (hd : d.length = ids.length)
    (hrows : (P.rows.map (·.id)).Nodup)
    (hδ : ∀ r ∈ P.rows, ∀ i : ℕ, ids[i]? = some r.id → d[i]? = some (r.activity x - r.rhs))
    (hhold : ∀ r ∈ P.rows, r.id ∉ ids → r.Holds x) :
    P.sense.orient (value + Scalar.dot (ids.map (price P.rows duals)) d) ≤ P.sense.orient
      (P.objective x) := by
  have hbreach : P.sense.orient (Scalar.dot (ids.map (price P.rows duals)) d) ≤ P.sense.orient
      ((P.rows.zip duals).map fun ry => ry.2 * (ry.1.activity x - ry.1.rhs)).sum := by
    rw [dot_price hids hd hrows hδ, Sense.orient_list_sum, Sense.orient_list_sum, List.map_map,
      List.map_map]
    refine List.sum_le_sum fun ry hry => ?_
    simp only [Function.comp]
    split_ifs with hmem
    · exact le_rfl
    · rw [Sense.orient_zero]
      exact h.orient_breach_nonneg hry (hhold ry.1 (List.of_mem_zip hry).1 hmem)
  have hbound := h.bound x hx
  rw [Sense.orient_sub] at hbound
  rw [Sense.orient_add]
  linarith

end Program

theorem Solver.Exact.isOptimum [IsStrictOrderedRing α] {lp : Solver α} (hlp : lp.Exact)
    {Q : Program α} {o : Optimum α} (h : lp Q = .optimal o) : Q.IsOptimum o := by
  obtain ⟨hfeasible, hvalue, hcertifies⟩ := hlp Q o h
  exact ⟨hfeasible, hvalue, fun _ hy => hcertifies.le_objective hy⟩

end Recourse
