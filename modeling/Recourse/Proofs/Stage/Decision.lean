import Recourse.Proofs.Stage.Request
import Recourse.Proofs.Stage.SetUp
import Recourse.Proofs.Stage.Support

/-! What an optimum of a joined model decides. As long as no row of the model is missing, its point
is a decision that the model as it was written allows after what came in, with a cost-to-go of its
own. Solving never loses a row. -/

namespace Recourse

open Run (Keeps)

/-! ### Rows that stay -/

namespace Stage

variable {α : Type} [Scalar α] [Numeral α] {m M : Stage α}

theorem enterScenario_keepsRows (hm : m.Settled) (d : Datum α) :
    Keeps m.Kept (enterScenario d) := by
  refine Keeps.iff_on.mpr fun M hM => ?_
  obtain ⟨as, rows, has, hM⟩ := hM
  obtain ⟨M', bs, hrun, -, hbs, hM', -⟩ := (enterScenario_enters m d).on hm.random hM
  rw [hrun]
  refine ⟨as ++ bs, rows, fun a ha => ?_, hM'⟩
  exact (List.mem_append.mp ha).elim (has a) fun ha => .inr (hbs a ha)

theorem attach_keepsRows (hm : m.Settled) : Keeps m.Kept (attach : Edit α Unit) := by
  refine Keeps.iff_on.mpr fun M hM => ?_
  obtain ⟨as, rows, has, hM⟩ := hM
  obtain ⟨M', rows', hrun, hM', -⟩ := attach_spec (Bears.base_lt hm) hM
  rw [hrun]
  exact ⟨as, rows', has, hM'⟩

theorem Kept.withSolution (h : m.Kept M) (status : Status) (solution : Option (Solution α)) :
    m.Kept { M with status, solution } := by
  obtain ⟨as, rows, has, hM⟩ := h
  exact ⟨as, rows, has, hM.frame, hM.issued, hM.rows, hM.none, hM.some⟩

theorem solve_keepsRows (hm : m.Settled) (lp : Solver α) (phase : String) (sample : Datum α) :
    Keeps m.Kept (solve lp phase sample) := by
  refine (attach_keepsRows hm).bind fun _ => Keeps.iff_on.mpr fun M hM => ?_
  simp only [Run.on, optimize]
  split <;> exact hM.withSolution _ _

theorem enterArrival_keepsRows (hm : m.Settled) (arrival : Arrival α) :
    Keeps m.Kept (enterArrival arrival) := by
  cases arrival with
  | none => exact .pure
  | some entry =>
    refine Keeps.iff_on.mpr fun M hM => ?_
    obtain ⟨M', hrun, -, hM', -⟩ := hM.enterIncoming hm entry.1 entry.2
    have hsame : (enterArrival (some entry)).on M = _ := hrun
    rw [hsame]
    exact hM'

end Stage

variable {α : Type} [Field α] [LinearOrder α]

/-! ### Limits -/

/-- A column whose limits are as adding a column leaves them: none that is beyond the threshold is
kept. -/
structure Column.Trimmed (c : Column α) : Prop where
  lower : c.lower.asLower = c.lower
  upper : c.upper.asUpper = c.upper

theorem Column.Trimmed.clamp_eq {c : Column α} (h : c.Trimmed) {v : α} (hv : c.Allows v) :
    Limit.clamp c.lower c.upper v = v := by
  obtain ⟨hlower, hupper⟩ := hv
  have hcap : Limit.clamp.cap c.upper v = v := by
    have htrimmed := h.upper
    rcases hu : c.upper with _ | b | _
    · rfl
    · rw [hu] at htrimmed hupper
      have hlow : ¬ Limit.threshold ≤ b := fun hle => by simp [Limit.asUpper, hle] at htrimmed
      by_cases hneg : b ≤ -Limit.threshold
      · simp [Limit.effective, Limit.truncate, hlow, hneg, Limit.numberLe] at hupper
      · have hle : v ≤ b := by
          simpa [Limit.effective, Limit.truncate, hlow, hneg, Limit.numberLe] using hupper
        simp [Limit.clamp.cap, not_lt.mpr hle]
    · rfl
  have htrimmed := h.lower
  rcases hl : c.lower with _ | a | _
  · exact hcap
  · rw [hl] at htrimmed hlower
    have hhigh : ¬ a ≤ -Limit.threshold := fun hle => by simp [Limit.asLower, hle] at htrimmed
    by_cases hpos : Limit.threshold ≤ a
    · simp [Limit.effective, Limit.truncate, hpos, Limit.leNumber] at hlower
    · have hle : a ≤ v := by
        simpa [Limit.effective, Limit.truncate, hpos, hhigh, Limit.leNumber] using hlower
      rw [Limit.clamp, if_neg (not_lt.mpr hle)]
      exact hcap
  · exact hcap

/-! ### Points -/

namespace Junction

variable [Numeral α] {j : Junction α} {m M : Stage α} {B : Row α → α → Prop} {L : ℕ → α → Prop}
  {k : ℕ} {y z xs : List α}
  {q : α}

/-- A joined model none of whose rows is missing. Those as they were written and the links may have
other right-hand sides. -/
structure Present (j : Junction α) (m : Stage α) : Prop where
  base : ∀ r ∈ j.base.rows, ∃ r' ∈ m.rows, r'.id = r.id
  links : ∀ id ∈ j.ids, ∃ r ∈ m.rows, r.id = id
  initial : j.first = true → ∀ cd ∈ j.base.copies.zip j.base.initial,
    cd.2.isNull = false → ∃ r ∈ m.rows, r.Fixes cd

theorem Complete.present (h : j.Complete m) (hj : j.Sound) (hm : j.AtRest AnyLink m)
    (hM : m.Kept M) : j.Present M := by
  obtain ⟨as, rows, has, hM⟩ := hM
  have hrow {r : Row α} (hr : r ∈ m.rows) : r.assign as ∈ M.rows := by
    rw [hM.rows]
    exact List.mem_append_left _ (List.mem_map_of_mem hr)
  have hlinks : m.linkRows = j.ids := by
    rw [hm.frame]
    rfl
  have hrandom : m.randomRows = j.randomRows := by
    rw [hm.frame]
    rfl
  refine ⟨fun r hr => ⟨_, hrow (h.base r hr), rfl⟩, fun id hid => ?_,
    fun hfirst cd hcd hgiven => ?_⟩
  · obtain ⟨i, hi, rfl⟩ := List.getElem_of_mem hid
    have hcopy : i < j.copies.length := hi.trans_le hj.ids_length_le
    obtain ⟨r, hr, hid, -⟩ := h.links i _ _ (List.getElem?_eq_getElem hcopy)
      (List.getElem?_eq_getElem hi)
    exact ⟨_, hrow hr, hid⟩
  · obtain ⟨r, hr, hissued, hfixes⟩ := h.initial hfirst cd hcd hgiven
    have hsame : r.assign as = r := by
      refine Row.assign_of_not_mem fun a ha hid => ?_
      rcases has a ha with hlink | hsampled
      · obtain ⟨hnil, hnil'⟩ := hj.first hfirst
        rw [hlinks, ids, hnil, hnil'] at hlink
        cases hlink
      · have := hj.random_lt (hrandom ▸ hsampled)
        omega
    exact ⟨r, hsame ▸ hrow hr, hfixes⟩

/-- A point of a joined program is a decision with a cost-to-go. -/
theorem Joined.exists_extended (hm : j.Joined B L m) (hz : m.program.Within z) :
    ∃ y q, z = j.extended y q ∧ y.length = j.base.columns.length ∧ j.base.program.Within y := by
  have hcolumns : m.program.columns = j.base.columns ++ j.alpha.toList := by
    rw [hm.frame]
    rfl
  rw [Program.Within, hcolumns] at hz
  have hhead : List.Forall₂ Column.Allows j.base.columns (z.take j.base.columns.length) := by
    have htake := List.forall₂_take j.base.columns.length hz
    rwa [List.take_left] at htake
  have htail := List.forall₂_drop j.base.columns.length hz
  rw [List.drop_left] at htail
  refine ⟨z.take j.base.columns.length, (z.drop j.base.columns.length).headD 0, ?_,
    hhead.length_eq.symm, hhead⟩
  have hlength := htail.length_eq
  rw [extended]
  cases halpha : j.alpha with
  | none =>
    rw [halpha] at hlength
    have hnil : z.drop j.base.columns.length = [] := List.length_eq_zero_iff.mp hlength.symm
    conv_lhs => rw [← List.take_append_drop j.base.columns.length z, hnil]
    rfl
  | some column =>
    rw [halpha] at hlength
    obtain ⟨q, hq⟩ := List.length_eq_one_iff.mp hlength.symm
    conv_lhs => rw [← List.take_append_drop j.base.columns.length z, hq]
    rw [hq]
    rfl

/-- Where no row is missing, a point satisfies the rows of the model as it was written. -/
theorem Joined.allows (hj : j.Sound) (hm : j.Joined (j.InScenario k) L m) (hpresent : j.Present m)
    (hz : m.program.Feasible (j.extended y q)) (hy : y.length = j.base.columns.length)
    (hwithin : j.base.program.Within y) : j.base.Allows k y := by
  refine ⟨hwithin, fun r₀ hr₀ => ?_⟩
  obtain ⟨r, hr, hid⟩ := hpresent.base r₀ hr₀
  have hlt := hj.base.issued r₀ hr₀
  have hsame : r = r₀.assign (j.base.assignments k) := by
    cases hm.rows r hr with
    | base r₁ mem same rhs =>
      have hid' : r₁.id = r₀.id := by rw [← hid, same]
      obtain rfl : r₁ = r₀ := List.inj_on_of_nodup_map hj.base.ids mem hr₀ hid'
      rw [same, Row.assign, ← rhs]
    | link i column link =>
      have := hj.fresh r.id (List.mem_of_getElem? link)
      omega
    | initial _ issued => omega
    | cut _ issued => omega
  have hterms : ∀ t ∈ r.terms, t.1 < y.length := by
    rw [hsame, hy]
    exact hj.base.terms r₀ hr₀
  rw [← hsame]
  exact ((Program.feasible_iff.mp hz).2 r hr).congr (Row.activity_append hterms _).symm

theorem Joined.copies_eq (hj : j.Sound) (hm : j.Joined B (fun i v => xs[i]? = some v) m)
    (hpresent : j.Present m)
    (hz : m.program.Feasible (j.extended y q)) (hy : y.length = j.base.columns.length)
    {i column : ℕ}
    (hi : i < j.ids.length) (hcopy : j.copies[i]? = some column) :
    xs[i]? = some (y.getD column 0) := by
  obtain ⟨r, hr, hid⟩ := hpresent.links j.ids[i] (List.getElem_mem hi)
  have hholds := (Program.feasible_iff.mp hz).2 r hr
  have hfresh := hj.fresh _ (List.getElem_mem hi)
  have hmem := List.getElem_mem hi
  cases hm.rows r hr with
  | base r₀ mem same =>
    have hlt := hj.base.issued r₀ mem
    rw [show r.id = r₀.id by rw [same]] at hid
    omega
  | link i' column' link copy terms relation rhs =>
    obtain ⟨hi', hlink⟩ := List.getElem?_eq_some_iff.mp link
    obtain rfl : i' = i := hj.nodup.getElem_inj_iff.mp (hlink.trans hid)
    obtain rfl : column' = column := Option.some.inj (copy.symm.trans hcopy)
    have hcolumn : column' < y.length := by
      rw [hy]
      exact hj.base.copies column' (List.mem_of_getElem? copy)
    simp only [Row.Holds, relation, Row.activity_single terms, getD_extended hcolumn] at hholds
    rw [rhs, le_antisymm hholds.1 hholds.2]
  | initial fresh => exact absurd (hid ▸ hmem) fresh
  | cut fresh => exact absurd (hid ▸ hmem) fresh

theorem Present.starts (hpresent : j.Present m) (hj : j.Sound) (hfirst : j.first = true)
    (hz : m.program.Feasible (j.extended y q)) (hy : y.length = j.base.columns.length) :
    j.base.Starts y := by
  intro cd hcd hgiven v hv
  obtain ⟨r, hr, ⟨hterms, hrelation⟩, -, hvalue⟩ := hpresent.initial hfirst cd hcd hgiven
  have hholds := (Program.feasible_iff.mp hz).2 r hr
  have hcolumn : cd.1 < y.length := by
    rw [hy]
    exact hj.base.copies cd.1 (List.mem_append_left _ (List.of_mem_zip hcd).1)
  simp only [Row.Holds, hrelation, Row.activity_single hterms, getD_extended hcolumn] at hholds
  rw [le_antisymm hholds.1 hholds.2]
  exact Except.ok.inj (hvalue.symm.trans hv)

/-! ### What goes out -/

theorem Joined.outgoing_eq (hj : j.Sound) (hm : j.Joined B L m)
    (htrimmed : ∀ c ∈ j.base.columns, c.Trimmed) {x : Solution α} (hx : x.point = j.extended y q)
    (hwithin : j.base.program.Within y) :
    m.outgoing x = (j.base.outState y, j.base.outNoise y) := by
  have hy : y.length = j.base.columns.length := hwithin.length_eq.symm
  have hcolumns : m.columns = j.base.columns ++ j.alpha.toList := by rw [hm.frame]
  have hstates : m.states = j.base.states := by rw [hm.frame]
  have hnoise : m.noise = j.base.noise := by rw [hm.frame]
  rw [Stage.outgoing, hstates, hnoise]
  refine Prod.ext (List.map_congr_left fun i hi => ?_) (List.map_congr_left fun i hi => ?_)
  · have hlt := hj.base.states i hi
    have hcolumn : m.columns[i]? = some j.base.columns[i] := by
      rw [hcolumns, List.getElem?_append_left hlt, List.getElem?_eq_getElem hlt]
    have hvalue : x.valueAt i = y[i] := by
      rw [Solution.valueAt, hx, getD_extended (by omega)]
      simp [List.getD_eq_getElem?_getD, hy, hlt]
    have hallows : j.base.columns[i].Allows y[i] :=
      (List.forall₂_iff_get.mp hwithin).2 i hlt (by omega)
    have houtput : y.getD i 0 = y[i] := by simp [List.getD_eq_getElem?_getD, hy, hlt]
    simp only [Stage.lowerLimit, Stage.upperLimit, hcolumn, Option.map_some, Option.getD_some,
      hvalue, houtput]
    exact (htrimmed _ (List.getElem_mem hlt)).clamp_eq hallows
  · rw [Solution.valueAt, hx, getD_extended (hy ▸ hj.base.noise i hi)]

/-- The value of a joined model without its cost-to-go is what the decision costs. -/
theorem Joined.ownCost_eq (hm : j.Joined B L m) {discount : α}
    (halpha : ∀ column, j.alpha = some column → column.cost = discount)
    (t : ℕ) {x : Solution α} (hx : x.point = j.extended y q)
    (hvalue : m.program.objective x.point = x.value)
    (hy : y.length = j.base.columns.length) :
    m.ownCost discount t x = discount ^ t * j.base.program.objective y := by
  have hcolumn : m.costToGoColumn = j.alpha.map fun _ => j.base.columns.length := by rw [hm.frame]
  rw [hx, hm.objective_extended hy] at hvalue
  rw [Stage.ownCost, hcolumn, ← hvalue]
  simp only [Scalar.pow_eq]
  cases h : j.alpha with
  | none => simp
  | some column =>
    have hq : x.valueAt j.base.columns.length = q := by
      rw [Solution.valueAt, hx, extended, h, ← hy]
      simp
    simp [hq, halpha column h]

end Junction

end Recourse
