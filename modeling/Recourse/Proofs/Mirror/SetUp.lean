import Recourse.Proofs.Mirror.Stage
import Recourse.Stage.Setup

/-! Joining a model on both sides. The cost-to-go variable is bounded on the side that the objective
presses against: seen from the other side, it is the variable with the other sign. -/

namespace Recourse

open Run (Alike Coupled)

variable {α β γ : Type}

namespace Stage

variable {m m' : Stage α} {n : ℕ} {column : Option ℕ}

section

variable [Field α] [LinearOrder α]

structure Facing (m m' : Stage α) : Prop where
  proper : m.Proper
  mirror : m' = m.mirror

theorem Facing.coupled {act : Edit α β} {act' : Edit α γ} {A : β → γ → Prop}
    (h : ∀ n column, Coupled (Opposed n column) act act' A) : Coupled Facing act act' A := by
  rintro m m' ⟨hproper, hmirror⟩
  obtain ⟨hanswer, hend⟩ := h m.columns.length m.costToGoColumn m m' ⟨hproper, rfl, rfl, hmirror⟩
  exact ⟨hanswer, hend.proper, hend.mirror⟩

/-! ### Links -/

theorem fixInitial_opposed [Numeral α] {pairs : List (ℕ × Datum α)}
    (hpairs : ∀ p ∈ pairs, p.1 < n ∧ column ≠ some p.1) :
    Coupled (Opposed n column) (fixInitial pairs) (fixInitial pairs) Eq := by
  induction pairs with
  | nil => exact .pure rfl
  | cons p pairs ih =>
    have hp := hpairs p List.mem_cons_self
    have ih := ih fun p hp => hpairs p (List.mem_cons_of_mem _ hp)
    obtain ⟨i, d⟩ := p
    rw [fixInitial]
    refine .ite ?_ ih
    exact (Coupled.ofExcept_eq rfl).bind_same fun x =>
      (addRow_opposed _ hp _ _).bind_same fun _ => ih

theorem addLinks_opposed {columns : List ℕ} (hcolumns : ∀ i ∈ columns, i < n ∧ column ≠ some i)
    (name : String) :
    Coupled (Opposed n column) (addLinks columns name : Edit α (List ℕ))
      (addLinks columns name) Eq := by
  refine Coupled.get_bind fun m m' h => ?_
  have hlabel (i : ℕ) : m'.columnLabel i = m.columnLabel i := by
    rw [columnLabel, columnLabel, h.mirror, columnName_mirror]
  simp only [hlabel]
  exact Coupled.mapM fun i hi => addRow_opposed _ (hcolumns i hi) _ _

theorem setUpLinks_opposed [Numeral α] (first : Bool) :
    Coupled (Opposed n column) (setUpLinks first : Edit α Unit) (setUpLinks first) Eq := by
  refine Coupled.get_bind fun m m' h => ?_
  obtain ⟨hproper, rfl, rfl, rfl⟩ := h
  have hcopies : ∀ i ∈ m.copies, i < m.columns.length ∧ m.costToGoColumn ≠ some i := fun i hi =>
    hproper.apart i (by simp [hi])
  have hnoise : ∀ i ∈ m.noiseCopies, i < m.columns.length ∧ m.costToGoColumn ≠ some i := fun i hi =>
    hproper.apart i (by simp [hi])
  have hlinked : Coupled (Opposed m.columns.length m.costToGoColumn)
      (modify fun s => { s with linked := true } : Edit α Unit)
      (modify fun s => { s with linked := true }) Eq :=
    Coupled.modify fun m m' h => by
      obtain ⟨hproper, hlength, hcolumn, rfl⟩ := h
      exact ⟨⟨hproper.apart, hproper.terms⟩, hlength, hcolumn, rfl⟩
  refine .ite (.pure rfl) (.ite ?_ ?_)
  · exact (fixInitial_opposed fun p hp => hcopies p.1 (List.of_mem_zip hp).1).bind_same fun _ =>
      hlinked
  · refine (addLinks_opposed hcopies _).bind_same fun links =>
      (addLinks_opposed hnoise _).bind_same fun noiseLinks => ?_
    refine Coupled.bind_same (Coupled.modify fun m m' h => ?_) fun _ => hlinked
    obtain ⟨hproper, hlength, hcolumn, rfl⟩ := h
    exact ⟨⟨hproper.apart, hproper.terms⟩, hlength, hcolumn, rfl⟩

/-! ### The cost-to-go -/

def costToGoVariable (sense : Sense) (discount : α) (bound : Limit α) : Column α :=
  match sense with
  | .minimize => { name := "alpha", lower := bound.asLower, upper := .above, cost := discount }
  | .maximize => { name := "alpha", lower := .below, upper := bound.asUpper, cost := discount }

def withCostToGo (m : Stage α) (discount : α) (bound : Limit α) : Stage α :=
  { m.discard with
    columns := m.columns ++ [costToGoVariable m.sense discount bound]
    costToGoColumn := some m.columns.length }

theorem addCostToGo_on (discount : α) (bound : Limit α) (m : Stage α) :
    (addCostToGo discount bound).on m = (.ok (), m.withCostToGo discount bound) := by
  have hdefined (l : Limit α) : l.isDefined = true := by cases l <;> simp [Limit.isDefined]
  have hadd (lower upper : Limit α) : (addColumn "alpha" lower upper discount).on m =
      (putColumn { name := "alpha", lower, upper, cost := discount }).on m := by
    have hcheck : ({ name := "alpha", lower, upper, cost := discount } : Column α).check =
        .ok () := by
      rw [Column.check, Column.isDefined, hdefined, hdefined, Scalar.isNumber_eq]
      rfl
    rw [addColumn, hcheck]
    rfl
  rw [addCostToGo, Run.bind_ok _ (Run.get_on m)]
  cases hsense : m.sense with
  | minimize =>
    rw [Run.bind_ok _ (hadd _ _), withCostToGo, hsense]
    rfl
  | maximize =>
    rw [Run.bind_ok _ (hadd _ _), withCostToGo, hsense]
    rfl

theorem withCostToGo_proper (hm : m.Proper) (discount : α) (bound : Limit α) :
    (m.withCostToGo discount bound).Proper where
  apart := fun i hi => by
    have hlt := (hm.apart i hi).1
    refine ⟨?_, ?_⟩
    · simp only [withCostToGo, List.length_append]
      omega
    · simp only [withCostToGo, ne_eq, Option.some.injEq]
      omega
  terms := fun h => nomatch h

theorem setUpCostToGo_on_some (h : m.costToGoColumn.isSome)
    (terms : Except (Fault α) (α × Limit α)) :
    (setUpCostToGo terms).on m = (.ok (), m) := by
  rw [setUpCostToGo, Run.bind_ok _ (Run.get_on m), if_pos h]
  rfl

theorem setUpCostToGo_on_none (h : m.costToGoColumn = none)
    (terms : Except (Fault α) (α × Limit α)) :
    (setUpCostToGo terms).on m = match terms with
      | .error e => (.error e, m)
      | .ok (discount, bound) => (.ok (), m.withCostToGo discount bound) := by
  rw [setUpCostToGo, Run.bind_ok _ (Run.get_on m), if_neg (by simp [h])]
  cases terms with
  | error e => rfl
  | ok terms => exact addCostToGo_on terms.1 terms.2 m

/-! ### Pools -/

theorem cutBox_mirror (hm : m.Proper) (lagged : Bool) :
    m.mirror.cutBox lagged = m.cutBox lagged := by
  have hlower : m.states.map m.mirror.lowerLimit = m.states.map m.lowerLimit :=
    List.map_congr_left fun i hi => (limits_mirror (hm.state_ne hi)).1
  have hupper : m.states.map m.mirror.upperLimit = m.states.map m.upperLimit :=
    List.map_congr_left fun i hi => (limits_mirror (hm.state_ne hi)).2
  rw [cutBox, cutBox, show m.mirror.states = m.states from rfl,
    show m.mirror.noise = m.noise from rfl, hlower, hupper]

theorem setUpPool_facing (sense : Sense) (pruning lagged : Bool) :
    Coupled Facing (setUpPool sense pruning lagged : Edit α Unit)
    (setUpPool sense.opposite pruning lagged) Eq := by
  rintro m _ ⟨hproper, rfl⟩
  rcases hctg : m.costToGo with _ | ctg
  · have hctg' : m.mirror.costToGo = none := congrArg (Option.map CostToGo.mirror) hctg
    simp only [Run.on, setUpPool, hctg, hctg', cutBox_mirror hproper]
    exact ⟨.ok rfl, ⟨hproper.apart, hproper.terms⟩, rfl⟩
  · have hctg' : m.mirror.costToGo = some ctg.mirror := congrArg (Option.map CostToGo.mirror) hctg
    simp only [Run.on, setUpPool, hctg, hctg']
    exact ⟨.ok rfl, hproper, rfl⟩

/-! ### Bounds -/

variable [IsStrictOrderedRing α]

theorem costToGoVariable_mirror (sense : Sense) (discount : α) (bound : Limit α) (n : ℕ) :
    costToGoVariable sense.opposite discount bound.opposite =
      (costToGoVariable sense discount bound).mirror (some n) n := by
  have hupper : bound.opposite.asUpper = bound.asLower.opposite := by
    cases bound with
    | fin b =>
      simp only [Limit.opposite, Limit.asUpper, Limit.asLower, le_neg]
      split_ifs <;> rfl
    | below => rfl
    | above => rfl
  have hlower : bound.opposite.asLower = bound.asUpper.opposite := by
    cases bound with
    | fin b =>
      simp only [Limit.opposite, Limit.asUpper, Limit.asLower, neg_le_neg_iff]
      split_ifs <;> rfl
    | below => rfl
    | above => rfl
  rw [Column.mirror, if_pos rfl]
  cases sense with
  | minimize => exact congrArg (fun upper => (⟨"alpha", .below, upper, discount⟩ : Column α)) hupper
  | maximize => exact congrArg (fun lower => (⟨"alpha", lower, .above, discount⟩ : Column α)) hlower

theorem withCostToGo_mirror (hm : m.Proper) (hnone : m.costToGoColumn = none) (discount : α)
    (bound : Limit α) :
    m.mirror.withCostToGo discount bound.opposite = (m.withCostToGo discount bound).mirror := by
  -- no variable and no row that the model had before is about the new variable
  have hsigned {i : ℕ} (hi : i < m.columns.length) (x : α) :
      signedAt (some m.columns.length) i x = signedAt none i x := by
    simp [signedAt, hi.ne']
  have hrows : m.rows.map (Row.mirror none) = m.rows.map (Row.mirror (some m.columns.length)) := by
    refine List.map_congr_left fun r hr => ?_
    rw [Row.mirror, Row.mirror]
    congr 1
    exact List.map_congr_left fun t ht => by rw [hsigned (hm.terms hnone r hr t ht)]
  have hcolumns : m.columns.mapIdx (Column.mirror none) ++
      [costToGoVariable m.sense.opposite discount bound.opposite] =
      (m.columns ++ [costToGoVariable m.sense discount bound]).mapIdx
      (Column.mirror (some m.columns.length)) := by
    rw [List.mapIdx_concat, costToGoVariable_mirror]
    congr 1
    refine List.ext_getElem (by simp) fun i hi _ => ?_
    have hi : i < m.columns.length := by simpa using hi
    simp [Column.mirror, hi.ne']
  have hlength : m.mirror.columns.length = m.columns.length := List.length_mapIdx
  have hsame : m.mirror.withCostToGo discount bound.opposite = { m.mirror.discard with
      columns := m.columns.mapIdx (Column.mirror none) ++
      [costToGoVariable m.sense.opposite discount bound.opposite]
      rows := m.rows.map (Row.mirror none)
      costToGoColumn := some m.columns.length } := by
    rw [withCostToGo, hlength]
    simp only [mirror, hnone, discard]
  rw [hsame, hcolumns, hrows]
  rfl

theorem setUpCostToGo_facing (terms : Except (Fault α) (α × Limit α)) :
    Coupled Facing (setUpCostToGo terms)
    (setUpCostToGo (terms.map fun t => (t.1, t.2.opposite))) Eq := by
  rintro m _ ⟨hproper, rfl⟩
  rcases hcolumn : m.costToGoColumn with _ | i
  · rw [setUpCostToGo_on_none hcolumn, setUpCostToGo_on_none
      (show m.mirror.costToGoColumn = none from hcolumn)]
    rcases terms with e | ⟨discount, bound⟩
    · exact ⟨.error e, hproper, rfl⟩
    · exact ⟨.ok rfl, withCostToGo_proper hproper discount bound,
        withCostToGo_mirror hproper hcolumn discount bound⟩
  · have hsome : m.costToGoColumn.isSome := by rw [hcolumn]; rfl
    rw [setUpCostToGo_on_some hsome, setUpCostToGo_on_some
      (show m.mirror.costToGoColumn.isSome from hsome)]
    exact ⟨.ok rfl, hproper, rfl⟩

end

end Stage

end Recourse
