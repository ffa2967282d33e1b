import Recourse.Proofs.Fraction
import Recourse.Proofs.Multistage.History
import Recourse.Proofs.Stage.Support

/-! The rows of the cuts and the pool, whatever is done on either of them. Cuts arrive, dominated
ones are removed, and now and then the rows are brought in line. Whatever came before, and however
it ended, right after that there is a row for each stored cut and none for any other. -/

namespace Recourse.Stage

open Run (Triple)

variable {α : Type}

inductive Upkeep (α : Type) where
  | add (c : Cut α)
  | prune
  | attach

section Steps

variable [Scalar α] [Numeral α]

def Upkeep.run : Upkeep α → Edit α Unit
  | .add c => do let _ ← onPool (Pool.add c)
  | .prune => do let _ ← onPool Pool.prune
  | .attach => Stage.attach

/-- The model after a list of operations. One that fails leaves behind what it has done, and the
next one goes on from there. -/
def maintain (steps : List (Upkeep α)) (m : Stage α) : Stage α :=
  steps.foldl (fun M step => (step.run.on M).2) m

def withNewCostToGo (m : Stage α) (sense : Sense) (box : Box α) (pruning lagged : Bool) : Stage α :=
  { m with costToGo := some (newCostToGo sense box pruning lagged) }

end Steps

variable {m M M' : Stage α} {base rows : List (Row α)} {ctg : CostToGo α}

section Bearing

variable [Scalar α] [Numeral α]

/-! ### One operation -/

theorem bears_withNewCostToGo (m : Stage α) (sense : Sense) (box : Box α) (pruning lagged : Bool) :
    (m.withNewCostToGo sense box pruning lagged).Bears m.rows []
    (m.withNewCostToGo sense box pruning lagged) where
  frame := rfl
  issued := le_rfl
  rows := (List.append_nil _).symm
  none := fun _ => rfl
  some := by
    intro ctg hctg
    obtain rfl := Option.some.inj hctg
    refine ⟨⟨?_, .nil, ?_⟩, .nil, .nil, ?_, le_rfl, fun _ => rfl⟩
    all_goals
      intro c hc
      cases hc

theorem onPool_bears {β : Type} {act : Run α (Pool α) β}
    (hact : ∀ pool : Pool α, pool.Grows (act.on pool).2)
    (h : m.Bears base rows M) : m.Bears base rows
    ((do let _ ← onPool act : Edit α Unit).on M).2 := by
  have hstate : ((do let _ ← onPool act : Edit α Unit).on M).2 = ((onPool act).on M).2 := by
    rcases hrun : (onPool act).on M with ⟨_ | b, M'⟩
    · rw [Run.bind_error _ hrun]
    · rw [Run.bind_ok _ hrun]
      rfl
  rw [hstate]
  rcases hctg : M.costToGo with _ | ctg
  · rwa [onPool_on_none hctg]
  · rw [onPool_on_some hctg]
    exact bears_withPool h hctg (hact ctg.pool)

theorem Upkeep.run_bears (hbase : ∀ r ∈ base, r.id < m.issued) (step : Upkeep α)
    (h : m.Bears base rows M) :
    ∃ rows', m.Bears base rows' (step.run.on M).2 := by
  cases step with
  | add c => exact ⟨rows, onPool_bears (Pool.grows_add c) h⟩
  | prune => exact ⟨rows, onPool_bears Pool.grows_prune h⟩
  | attach =>
    obtain ⟨M', rows', hrun, hM', -⟩ := attach_spec hbase h
    refine ⟨rows', ?_⟩
    change m.Bears base rows' (Stage.attach.on M).2
    rw [hrun]
    exact hM'

theorem costToGo_of_bears {ctg₀ : CostToGo α} (h : m.Bears base rows M)
    (hctg : m.costToGo = some ctg₀) :
    ∃ ctg, M.costToGo = some ctg ∧ ctg.lagged = ctg₀.lagged := by
  have hbare : M.costToGo.map CostToGo.bare = some ctg₀.bare := by
    have := congrArg Stage.costToGo h.frame
    rwa [bare, bare, hctg] at this
  obtain ⟨ctg, hctg', hctg₀⟩ := Option.map_eq_some_iff.mp hbare
  exact ⟨ctg, hctg', (congrArg CostToGo.lagged hctg₀ :)⟩

/-! ### Any number of operations -/

theorem maintain_bears (hbase : ∀ r ∈ base, r.id < m.issued) (steps : List (Upkeep α))
    (h : m.Bears base rows M) :
    ∃ rows', m.Bears base rows' (maintain steps M) := by
  induction steps generalizing M rows with
  | nil => exact ⟨rows, h⟩
  | cons step steps ih =>
    obtain ⟨rows', h'⟩ := step.run_bears hbase h
    exact ih h'

/-- Attaching leaves the version of the pool behind, whether it had anything to do or not. -/
theorem attach_version : Triple (fun _ : Stage α => True) attach
    (fun _ M => ∀ ctg, M.costToGo = some ctg → ctg.version = ctg.pool.version) fun _ => True := by
  refine Triple.get_bind fun M _ => ?_
  rcases hctg : M.costToGo with _ | ctg
  · refine Triple.pure ?_
    rintro _ rfl ctg hctg'
    rw [hctg] at hctg'
    cases hctg'
  dsimp only
  split_ifs with hversion
  · refine Triple.pure ?_
    rintro _ rfl ctg' hctg'
    rw [hctg] at hctg'
    obtain rfl := Option.some.inj hctg'
    exact hversion.symm
  refine Triple.bind (Q := fun _ _ => True)
    (Run.Keeps.true.conseq (fun _ _ => trivial) (fun _ _ h => h) fun _ h => h)
    fun _ => ?_
  refine Triple.get_bind fun N _ => ?_
  rcases hN : N.costToGo with _ | ctg'
  · refine Triple.pure ?_
    rintro _ rfl ctg hctg'
    rw [hN] at hctg'
    cases hctg'
  · refine Triple.bind (Q := fun _ _ => True)
      (fun s _ => ⟨fun _ _ _ => trivial, fun _ _ _ => trivial⟩) fun _ => ?_
    refine Triple.modify ?_
    rintro N' - ctg'' hctg''
    obtain rfl := Option.some.inj hctg''
    rfl

end Bearing

/-! ### In line with the pool -/

section Rows

variable [Field α] [LinearOrder α] [IsStrictOrderedRing α]

/-- Whether a row is the one of a stored cut: it bears the number of the cut, and it says that the
cost-to-go is on the right side of it. The noise counts in a lagged function only. -/
structure Expresses (m : Stage α) (lagged : Bool) (c : Cut α) (r : Row α) : Prop where
  index : c.index = some c.number
  name : r.name = "cut[" ++ toString c.number ++ "]"
  column : ∃ column, m.costToGoColumn = some column ∧
    ∀ x, r.Holds x ↔ 0 ≤ m.sense.orient (x.getD column 0 - m.cutValue lagged c x)

/-- The rows of a model are those of `m` and, behind them, one for each stored cut, in the order of
the pool. The cost-to-go function knows them by the numbers of the cuts. -/
structure InSync (m : Stage α) (ctg : CostToGo α) (more : List (Row α)) (M : Stage α) : Prop where
  costToGo : M.costToGo = some ctg
  frame : M.bare = m.bare
  rows : M.rows = m.rows ++ more
  cuts : List.Forall₂ (m.Expresses ctg.lagged) ctg.pool.cuts more
  attached : ctg.attached = (ctg.pool.cuts.map Cut.number).zip (more.map Row.id)
  distinct : (ctg.pool.cuts.map Cut.number).Nodup
  ids : (more.map Row.id).Nodup
  apart : ∀ r ∈ more, r.id ∉ m.rows.map Row.id

theorem holds_cutRow (m : Stage α) (lagged : Bool) (id : ℕ) (c : Cut α) (x : List α) :
    (m.cutRow lagged id c).Holds x ↔
      0 ≤ m.sense.orient (x.getD (m.costToGoColumn.getD 0) 0 - m.cutValue lagged c x) := by
  have hactivity := activity_cutTerms m lagged (m.costToGoColumn.getD 0) c
    (rfl : (m.cutRow lagged id c).terms = _) x
  change m.sense.orient c.intercept ≤ (m.cutRow lagged id c).activity x ↔ _
  rw [hactivity, ← Sense.orient_sub, ← sub_nonneg, ← Sense.orient_sub]
  have hvalue : x.getD (m.costToGoColumn.getD 0) 0 - (m.cutValue lagged c x - c.intercept) -
      c.intercept =
      x.getD (m.costToGoColumn.getD 0) 0 - m.cutValue lagged c x := by ring
  rw [hvalue]

variable [Numeral α]

theorem expresses_cutRow {lagged : Bool} {c : Cut α} {r : Row α} (hindex : c.index = some c.number)
    (hcheck : m.checkRow lagged c = .ok ()) (hr : r = m.cutRow lagged r.id c) :
    m.Expresses lagged c r where
  index := hindex
  name := by
    rw [hr]
    rfl
  column := by
    obtain ⟨-, -, hcolumn⟩ := ok_of_bind hcheck
    rcases hm : m.costToGoColumn with _ | column
    · rw [hm] at hcolumn
      cases hcolumn
    · refine ⟨column, rfl, fun x => ?_⟩
      have hholds := holds_cutRow m lagged r.id c x
      rwa [hm, Option.getD_some, ← hr] at hholds

omit [IsStrictOrderedRing α] in
private theorem Carries.attached_ids (h : m.Carries ctg M.issued rows) :
    ctg.attached.map (·.2) = rows.map Row.id := by
  have hids : List.Forall₂ (fun (a : ℕ × ℕ) (r : Row α) => a.2 = r.id) ctg.attached rows :=
    h.rows.imp fun a r har => har.id.symm
  have hmap := List.forall₂_map_left_iff (f := Prod.snd)
    (R := fun i (r : Row α) => i = r.id)|>.mpr hids
  exact List.forall₂_eq_eq_eq ▸ (List.forall₂_map_right_iff.mpr hmap)

/-- As long as the version is that of the pool, the rows are in line with it. -/
theorem Carries.inSync (h : m.Carries ctg M.issued rows) (hcurrent : ctg.version = ctg.pool.version)
    (hm : ∀ r ∈ m.rows, r.id < m.issued) (hctg : M.costToGo = some ctg) (hframe : M.bare = m.bare)
    (hrows : M.rows = m.rows ++ rows) : m.InSync ctg rows M where
  costToGo := hctg
  frame := hframe
  rows := hrows
  cuts := by
    have hcuts := h.rows_eq (h.current hcurrent)
    refine List.forall₂_iff_get.mpr ⟨hcuts.length_eq, fun i hi hi' => ?_⟩
    obtain ⟨hcheck, hr⟩ := hcuts.get hi hi'
    exact expresses_cutRow (h.numbered.index _ (List.getElem_mem hi)) hcheck hr
  attached := List.zip_of_prod (h.current hcurrent) h.attached_ids
  distinct := h.numbered.growing.imp fun hlt => hlt.ne
  ids := by
    rw [← h.attached_ids]
    exact List.pairwise_map.mpr (h.growing.imp fun hlt => hlt.2.ne)
  apart := by
    intro r hr hmem
    obtain ⟨b, hb, hid⟩ := List.mem_map.mp hmem
    have hfresh := h.fresh hr
    have hold := hm b hb
    omega

/-- After any operations on a cost-to-go function and its pool, attaching succeeds if and only if
each stored cut fits the model, and then the rows are in line with the pool. Where there is nothing
to do, since the version is the same, the model stays as it is: the rows were in line already.
However attaching ends, the other rows are untouched. -/
theorem attach_inSync (hm : ∀ r ∈ m.rows, r.id < m.issued) (sense : Sense) (box : Box α)
    (pruning lagged : Bool)
    (steps : List (Upkeep α)) (hM : maintain steps
      (m.withNewCostToGo sense box pruning lagged) = M) :
    ∃ ctg, M.costToGo = some ctg ∧
      (attach.on M).1 = ctg.pool.cuts.forM (m.checkRow lagged) ∧
      ((attach.on M).1 = .ok () → ∃ ctg' more, ctg'.pool = ctg.pool ∧ ctg'.lagged = lagged ∧
        (m.withNewCostToGo sense box pruning lagged).InSync ctg' more (attach.on M).2) ∧
      (ctg.version = ctg.pool.version → attach.on M = (.ok (), M)) ∧
      ∃ more, (attach.on M).2.rows = m.rows ++ more := by
  set m₀ := m.withNewCostToGo sense box pruning lagged with hm₀
  have hnew : m₀.costToGo = some (newCostToGo sense box pruning lagged) := rfl
  have hbase : ∀ r ∈ m.rows, r.id < m₀.issued := hm
  obtain ⟨before, hbears⟩ := maintain_bears hbase steps
    (bears_withNewCostToGo m sense box pruning lagged)
  rw [hM] at hbears
  obtain ⟨ctg, hctg, -⟩ := costToGo_of_bears hbears hnew
  have hcuts : M.cuts = ctg.pool.cuts := by rw [cuts, pool?, hctg]; rfl
  obtain ⟨M', more, hattach, hbears', hpool, -⟩ := attach_spec hbase hbears
  obtain ⟨ctg', hctg', hlagged'⟩ := costToGo_of_bears hbears' hnew
  rw [pool?, pool?, hctg, hctg'] at hpool
  rw [hcuts] at hattach
  refine ⟨ctg, hctg, ?_, fun hok => ?_, fun hversion => ?_, more, ?_⟩
  · rw [hattach]
    rfl
  · refine ⟨ctg', more, Option.some.inj hpool, hlagged', ?_⟩
    have hcurrent := (attach_version M trivial).1 () _ (Run.on_of_answer (by rw [hok]; rfl))
    rw [hattach] at hcurrent ⊢
    exact (hbears'.some ctg' hctg').inSync (hcurrent ctg' hctg') hm hctg' hbears'.frame hbears'.rows
  · rw [attach, Run.bind_ok _ (Run.get_on M), hctg]
    exact congrArg (fun act : Edit α Unit => act.on M) (if_pos hversion.symm)
  · rw [hattach]
    exact hbears'.rows

def tank : Stage ℚ :=
  { Stage.empty "tank" .null .null .minimize with
    columns := [⟨"level", .fin 0, .fin 8, 1⟩, ⟨"alpha", .fin 0, .above, 1⟩]
    rows := [⟨0, "limit", [(0, 1)], .atMost, 5⟩]
    issued := 1
    states := [0]
    costToGoColumn := some 1 }

def tankCut (intercept slope : ℚ) : Cut ℚ := Cut.through 0 0 intercept [slope] [0] [] []

def tankSteps : List (Upkeep ℚ) := [.add (tankCut 1 2), .attach, .add (tankCut 3 2), .prune]

/-- What was attached too early is gone, and what came later is there. -/
theorem attach_inSync_tank :
    (∀ r ∈ tank.rows, r.id < tank.issued) ∧
    ∃ M M', maintain tankSteps (tank.withNewCostToGo .minimize ⟨[.fin 0], [.fin 8]⟩ false false) =
      M ∧
      M.rows.map Row.name = ["limit", "cut[0]"] ∧ M.cuts.map Cut.number = [1] ∧
      attach.on M = (.ok (), M') ∧
      M'.rows.map Row.name = ["limit", "cut[1]"] ∧
      ∃ ctg more, ctg.pool.cuts = M.cuts ∧
        (tank.withNewCostToGo .minimize ⟨[.fin 0], [.fin 8]⟩ false false).InSync ctg more M' := by
  have hm : ∀ r ∈ tank.rows, r.id < tank.issued := by decide
  obtain ⟨ctg, hctg, -, hsync, -⟩ := attach_inSync hm .minimize
    ⟨[.fin 0], [.fin 8]⟩ false false tankSteps rfl
  set M := maintain tankSteps (tank.withNewCostToGo .minimize
    ⟨[.fin 0], [.fin 8]⟩ false false) with hM
  have hattach : attach.on M = (.ok (), (attach.on M).2) := Run.on_of_isOk (by decide +kernel)
  obtain ⟨ctg', more, hpool, -, h⟩ := hsync (congrArg Prod.fst hattach)
  refine ⟨hm, M, _, rfl, ?_, ?_, hattach, ?_, ctg', more, ?_, h⟩
  · decide +kernel
  · decide +kernel
  · decide +kernel
  · rw [hpool, cuts, pool?, hctg]
    rfl

end Rows

end Recourse.Stage
