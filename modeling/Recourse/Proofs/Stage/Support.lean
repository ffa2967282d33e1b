import Recourse.Proofs.Stage.Operations

/-! What an optimum of a joined model tells about all incoming values. A decision of the model as it
was written, with a cost-to-go that no cut exceeds, is a point of the joined program that breaks no
rows but the links. So the optimal value, moved along the prices of the links, is no worse than the
cost of the decision. -/

namespace Recourse

variable {α : Type} [Field α] [LinearOrder α]

namespace Row

theorem activity_eq_sum (r : Row α) (x : List α) :
    r.activity x = (r.terms.map fun t => t.2 * x.getD t.1 0).sum :=
  Scalar.total_eq_sum _

theorem activity_append {r : Row α} {y : List α} (h : ∀ t ∈ r.terms, t.1 < y.length) (z : List α) :
    r.activity (y ++ z) = r.activity y := by
  rw [activity_eq_sum, activity_eq_sum]
  congr 1
  refine List.map_congr_left fun t ht => ?_
  simp [List.getD_eq_getElem?_getD, List.getElem?_append_left (h t ht)]

theorem activity_single {r : Row α} {column : ℕ} (h : r.terms = [(column, 1)]) (x : List α) :
    r.activity x = x.getD column 0 := by
  simp [activity_eq_sum, h]

theorem holds_equal {r : Row α} {x : List α} (h : r.relation = .equal) (hx : r.activity x = r.rhs) :
    r.Holds x := by
  simp only [Holds, h]
  exact ⟨hx.le, hx.ge⟩

theorem Holds.congr {r : Row α} {x y : List α} (h : r.Holds x) (hxy : r.activity y = r.activity x) :
    r.Holds y := by
  simp only [Holds, hxy]
  exact h

end Row

namespace Stage

private theorem sum_slopes (sense : Sense) (columns : List ℕ) (slopes z : List α) :
    ((columns.zip slopes).map fun t => -(sense.orient t.2) * z.getD t.1 0).sum =
      -(sense.orient (Scalar.dot slopes (columns.map fun i => z.getD i 0))) := by
  induction columns generalizing slopes with
  | nil => simp
  | cons i columns ih =>
    cases slopes with
    | nil => simp
    | cons a slopes =>
      rw [List.zip_cons_cons, List.map_cons, List.sum_cons, ih, List.map_cons, Scalar.dot_cons,
        Sense.orient_add]
      cases sense <;> simp only [Sense.orient] <;> ring

def cutValue (m : Stage α) (lagged : Bool) (c : Cut α) (y : List α) : α :=
  c.intercept + Scalar.dot c.slopes (m.outState y) +
    if lagged then Scalar.dot c.noiseSlopes (m.outNoise y) else 0

theorem cutValue_eq (m : Stage α) {lagged : Bool} {c : Cut α}
    (h : lagged = false → c.noiseSlopes = []) (y : List α) :
    m.cutValue lagged c y = c.value (m.outState y) (m.outNoise y) := by
  cases lagged with
  | true => rfl
  | false => simp [cutValue, Cut.value, h rfl]

theorem activity_cutTerms (m : Stage α) (lagged : Bool) (column : ℕ) (c : Cut α) {r : Row α}
    (hr : r.terms = m.cutTerms lagged column c) (z : List α) :
    r.activity z = m.sense.orient (z.getD column 0) - m.sense.orient
      (m.cutValue lagged c z - c.intercept) := by
  have hone (x : α) : m.sense.orient 1 * x = m.sense.orient x := by
    cases m.sense <;> simp [Sense.orient]
  rw [Row.activity_eq_sum, hr, cutTerms]
  simp only [List.map_cons, List.sum_cons, hone, List.map_map, List.map_append, List.sum_append]
  have hstates : ((m.states.zip c.slopes).map
      ((fun t => t.2 * z.getD t.1 0) ∘ fun x => (x.1, -(m.sense.orient x.2)))).sum = _ :=
    sum_slopes m.sense m.states c.slopes z
  rw [hstates]
  cases lagged with
  | false =>
    simp [cutValue, outState, sub_eq_add_neg]
  | true =>
    have hnoise : ((m.noise.zip c.noiseSlopes).map
        ((fun t => t.2 * z.getD t.1 0) ∘ fun x => (x.1, -(m.sense.orient x.2)))).sum = _ :=
      sum_slopes m.sense m.noise c.noiseSlopes z
    simp only [if_true, hnoise, cutValue, outState, outNoise, Sense.orient_sub, Sense.orient_add]
    ring

end Stage

namespace Junction

variable [Numeral α] {j : Junction α} {m : Stage α} {k : ℕ} {xs y : List α} {q : α}

def extended (j : Junction α) (y : List α) (q : α) : List α := y ++ j.alpha.toList.map fun _ => q

/-- What has to be known of a decision and a cost-to-go: the model as it was written allows the
decision, which starts from the initial values on the first stage, and the cost-to-go exceeds no
cut. It is within the limits of its column unless nothing is. -/
structure Decides (j : Junction α) (k : ℕ) (y : List α) (q : α) : Prop where
  allows : j.base.Allows k y
  starts : j.first = true → j.base.Starts y
  limits : ∀ column, j.alpha = some column → ∀ v, column.Allows v → column.Allows q
  cuts : ∀ c, j.valid c → j.alpha.isSome = true →
    j.base.sense.orient (j.base.cutValue j.lagged c y) ≤ j.base.sense.orient q

theorem Decides.length (h : j.Decides k y q) : y.length = j.base.columns.length :=
  h.allows.within.length_eq.symm

theorem Decides.within (h : j.Decides k y q) {B : Row α → α → Prop} {L : ℕ → α → Prop}
    (hm : j.Joined B L m)
    {z : List α} (hz : m.program.Within z) : m.program.Within (j.extended y q) := by
  have hcolumns : m.program.columns = j.base.columns ++ j.alpha.toList := by
    rw [hm.frame]
    rfl
  rw [Program.Within, hcolumns] at hz
  rw [Program.Within, hcolumns, extended]
  refine List.rel_append h.allows.within ?_
  cases halpha : j.alpha with
  | none => exact .nil
  | some column =>
    have hlast := List.forall₂_drop j.base.columns.length hz
    rw [List.drop_left, halpha] at hlast
    obtain ⟨v, -, hv, -⟩ := List.forall₂_cons_left_iff.mp hlast
    exact .cons (h.limits column halpha v hv) .nil

omit [Numeral α] in
theorem getD_extended {i : ℕ} (hi : i < y.length) : (j.extended y q).getD i 0 = y.getD i 0 := by
  simp [extended, List.getD_eq_getElem?_getD, List.getElem?_append_left hi]

theorem Decides.map_extended (h : j.Decides k y q) {columns : List ℕ}
    (hcolumns : ∀ i ∈ columns, i < j.base.columns.length) :
    (columns.map fun i => (j.extended y q).getD i 0) = columns.map fun i => y.getD i 0 :=
  List.map_congr_left fun i hi => getD_extended (h.length ▸ hcolumns i hi)

/-- A decision satisfies all rows but the links. -/
theorem Decides.holds [IsStrictOrderedRing α] (h : j.Decides k y q) (hj : j.Sound)
    {L : ℕ → α → Prop} {r : Row α} (hr : j.Admits (j.InScenario k) L r) (hlink : r.id ∉ j.ids) :
    r.Holds (j.extended y q) := by
  cases hr with
  | base r₀ mem same rhs =>
    have hr : r = r₀.assign (j.base.assignments k) := by
      rw [same, Row.assign, ← rhs]
    have hterms : ∀ t ∈ r.terms, t.1 < y.length := by
      rw [h.length, hr]
      exact hj.base.terms r₀ mem
    refine Row.Holds.congr (x := y) ?_ (Row.activity_append hterms _)
    rw [hr]
    exact h.allows.holds r₀ mem
  | link i column id => exact absurd (List.mem_of_getElem? id) hlink
  | initial _ _ column d first mem given value terms relation =>
    have hcolumn : column < y.length := by
      rw [h.length]
      exact hj.base.copies column (List.mem_append_left _ (List.of_mem_zip mem).1)
    refine Row.holds_equal relation ?_
    rw [extended, Row.activity_append (by simpa [terms] using hcolumn), Row.activity_single terms]
    exact h.starts first (column, d) mem given r.rhs value
  | cut _ _ c valid column terms relation rhs =>
    have hq : (j.extended y q).getD j.base.columns.length 0 = q := by
      obtain ⟨a, ha⟩ := Option.isSome_iff_exists.mp column
      simp [extended, ha, ← h.length]
    have hvalue : j.base.cutValue j.lagged c (j.extended y q) = j.base.cutValue j.lagged c y := by
      simp only [Stage.cutValue, Stage.outState, Stage.outNoise]
      rw [h.map_extended hj.base.states, h.map_extended hj.base.noise]
    simp only [Row.Holds, relation, rhs]
    rw [Stage.activity_cutTerms j.base j.lagged _ c terms, hq, hvalue, Sense.orient_sub]
    have := h.cuts c valid column
    linarith

theorem Joined.objective_extended {B : Row α → α → Prop} {L : ℕ → α → Prop} (hm : j.Joined B L m)
    (hy : y.length = j.base.columns.length) (q : α) :
    m.program.objective (j.extended y q) =
      j.base.program.objective y + (j.alpha.map fun column => column.cost * q).getD 0 := by
  have hcolumns : m.program.columns = j.base.columns ++ j.alpha.toList := by
    rw [hm.frame]
    rfl
  have hconstant : m.program.constant = j.base.constant := by
    rw [hm.frame]
    rfl
  rw [Program.objective, hcolumns, hconstant, List.map_append, extended,
    Scalar.dot_append (by simp [hy])]
  cases j.alpha with
  | none => simp [Program.objective, Stage.program]
  | some column => simp [Program.objective, Stage.program, Scalar.dot_cons, add_assoc]

/-- How far a decision breaks the links: by the difference of what it takes over to what came in. -/
theorem Decides.breach (h : j.Decides k y q) (hj : j.Sound) {B : Row α → α → Prop} {r : Row α}
    (hr : j.Admits B (fun i v => xs[i]? = some v) r) {i : ℕ} (hi : j.ids[i]? = some r.id) :
    (List.zipWith (· - ·) (j.copies.map fun i => y.getD i 0) xs)[i]? =
      some (r.activity (j.extended y q) - r.rhs) := by
  have hmem : r.id ∈ j.ids := List.mem_of_getElem? hi
  cases hr with
  | base r₀ mem same rhs =>
    have hlt : r.id < j.base.issued := by
      rw [same]
      exact hj.base.issued r₀ mem
    exact absurd (hj.fresh r.id hmem) (by omega)
  | link i' column id copy terms relation rhs =>
    obtain rfl : i = i' := by
      obtain ⟨hlt, hget⟩ := List.getElem?_eq_some_iff.mp hi
      obtain ⟨hlt', hget'⟩ := List.getElem?_eq_some_iff.mp id
      exact hj.nodup.getElem_inj_iff.mp (hget.trans hget'.symm)
    have hcolumn : column < y.length := by
      rw [h.length]
      exact hj.base.copies column (List.mem_of_getElem? copy)
    rw [extended, Row.activity_append (by simpa [terms] using hcolumn), Row.activity_single terms]
    simp [List.getElem?_zipWith, copy, rhs]
  | initial fresh => exact absurd hmem fresh
  | cut fresh => exact absurd hmem fresh

/-- The optimal value at some incoming values, moved along the prices of the links to the values
that a decision takes over, is no worse than the cost of that decision. -/
theorem Joined.support [IsStrictOrderedRing α] (hj : j.Sound) {lp : Solver α} (hlp : lp.Exact)
    (hm : j.Joined (j.InScenario k) (fun i v => xs[i]? = some v) m) {x : Solution α}
    (hx : Solved lp m x) (hxs : xs.length = j.ids.length) (h : j.Decides k y q) :
    j.base.sense.orient (x.value + Scalar.dot (j.ids.map x.price)
        (List.zipWith (· - ·) (j.copies.map fun i => y.getD i 0) xs)) ≤
      j.base.sense.orient
        (j.base.program.objective y + (j.alpha.map fun column => column.cost * q).getD 0) := by
  obtain ⟨o, hverdict, hvalue, -, hduals⟩ := hx.exact
  obtain ⟨hfeasible, -, hcert⟩ := hlp _ o hverdict
  have hprice : j.ids.map x.price = j.ids.map (Program.price m.program.rows o.duals) := by
    refine List.map_congr_left fun id _ => ?_
    rw [Solution.price, hduals]
    rfl
  have hlength : (List.zipWith (· - ·) (j.copies.map fun i => y.getD i 0) xs).length =
      j.ids.length := by
    simp [hxs, hj.ids_length_le]
  have hsense : m.program.sense = j.base.sense := by
    rw [hm.frame]
    rfl
  rw [← hm.objective_extended h.length q, hvalue, hprice, ← hsense]
  refine hcert.support (h.within hm (Program.feasible_iff.mp hfeasible).1) hj.nodup hlength
    hm.nodup ?_ ?_
  · exact fun r hr i hi => h.breach hj (hm.rows r hr) hi
  · exact fun r hr hlink => h.holds hj (hm.rows r hr) hlink

end Junction

end Recourse
