import Recourse.Proofs.Linear.Certificate
import Recourse.Proofs.Multistage.Settling
import Recourse.Proofs.Stage.NewCut
import Recourse.Proofs.Stage.SetUp
import Recourse.Proofs.Stage.Upkeep

/-! What the cost-to-go variable is worth at an optimum. It stands in no row but those of the cuts
and in no other limits than its bound, and it costs something. So an optimal point does not leave it
above what holds it up: it is the tightest of the bound and of the stored cuts there, and what is
left of the optimal value is the cost of the model as it was written. -/

namespace Recourse

open Run (Keeps)

variable {α : Type} [Field α] [LinearOrder α]

/-! ### The tighter one -/

def Sense.tighter : Sense → α → α → α
  | .minimize => max
  | .maximize => min

theorem Sense.orient_foldr_tighter [IsStrictOrderedRing α] (sense : Sense) (b v : α)
    (values : List α) :
    sense.orient (values.foldr sense.tighter b) ≤ sense.orient v ↔
      sense.orient b ≤ sense.orient v ∧ ∀ w ∈ values, sense.orient w ≤ sense.orient v := by
  induction values with
  | nil => simp
  | cons w values ih =>
    have htighter (x y : α) : sense.orient (sense.tighter x y) = max (sense.orient x)
        (sense.orient y) := by
      cases sense
      · rfl
      · exact (max_neg_neg x y).symm
    rw [List.foldr_cons, htighter, max_le_iff, ih, List.forall_mem_cons, and_left_comm]

theorem Junction.costToGoColumn_allows_iff [IsStrictOrderedRing α] {sense : Sense}
    {discount b v : α} (hb : |b| < Limit.threshold) :
    (costToGoColumn sense discount (.fin b)).Allows v ↔ sense.orient b ≤ sense.orient v := by
  obtain ⟨hlow, hhigh⟩ := abs_lt.mp hb
  cases sense with
  | minimize =>
    simp [Column.Allows, costToGoColumn, Limit.asLower, Limit.effective, Limit.truncate,
      Limit.leNumber, Limit.numberLe,
      Sense.orient, hlow.not_ge, hhigh.not_ge]
  | maximize =>
    simp [Column.Allows, costToGoColumn, Limit.asUpper, Limit.effective, Limit.truncate,
      Limit.leNumber, Limit.numberLe,
      Sense.orient, hlow.not_ge, hhigh.not_ge]

namespace Stage

/-! ### The program of a model with a cost-to-go -/

/-- A model with a cost-to-go on top of one as it was written: the column stands behind the others,
and no row refers to it. -/
structure Topped (base : Stage α) (discount bound : α) (m : Stage α) : Prop where
  sense : m.sense = base.sense
  columns : m.columns = base.columns ++ [Junction.costToGoColumn base.sense discount (.fin bound)]
  constant : m.constant = base.constant
  column : m.costToGoColumn = some base.columns.length
  terms : ∀ r ∈ m.rows, ∀ t ∈ r.terms, t.1 < base.columns.length
  states : ∀ i ∈ m.states, i < base.columns.length
  noise : ∀ i ∈ m.noise, i < base.columns.length

/-- The program of a model after assignments of right-hand sides, with the rows of some cuts. -/
def posed (m : Stage α) (as : List (ℕ × α)) (cuts : List (Cut α)) : Program α :=
  { m.program with rows := m.rows.map (Row.assign as) ++ cuts.map (m.cutRow m.lagged 0) }

variable {base m : Stage α} {discount bound : α} {as : List (ℕ × α)} {cuts : List (Cut α)}
  {y : List α}

/-- The value of a cut does not depend on the cost-to-go. -/
theorem Topped.cutValue_append (h : base.Topped discount bound m)
    (hy : y.length = base.columns.length) (lagged : Bool) (c : Cut α) (z : List α) :
    m.cutValue lagged c (y ++ z) = m.cutValue lagged c y := by
  have hget {columns : List ℕ} (hcolumns : ∀ i ∈ columns, i < base.columns.length) :
      (columns.map fun i => (y ++ z).getD i 0) = columns.map fun i => y.getD i 0 :=
    List.map_congr_left fun i hi => by
      rw [List.getD_eq_getElem?_getD, List.getD_eq_getElem?_getD,
        List.getElem?_append_left (hy ▸ hcolumns i hi)]
  simp only [cutValue, outState, outNoise, hget h.states, hget h.noise]

variable [IsStrictOrderedRing α]

/-- The points of the program, split into a decision and a cost-to-go: the rows concern the decision
alone, and the cost-to-go respects the bound and the cuts there. -/
theorem Topped.feasible_posed_iff (h : base.Topped discount bound m)
    (hbound : |bound| < Limit.threshold) (hy : y.length = base.columns.length) (v : α) :
    (m.posed as cuts).Feasible (y ++ [v]) ↔
      (base.program.Within y ∧ ∀ r ∈ m.rows.map (Row.assign as), r.Holds y) ∧
        m.sense.orient bound ≤ m.sense.orient v ∧
        ∀ c ∈ cuts, m.sense.orient (m.cutValue m.lagged c y) ≤ m.sense.orient v := by
  have hwithin : (m.posed as cuts).Within (y ++ [v]) ↔
      base.program.Within y ∧ m.sense.orient bound ≤ m.sense.orient v := by
    change List.Forall₂ Column.Allows m.columns _ ↔ _
    have hallows : (Junction.costToGoColumn base.sense discount (.fin bound)).Allows v ↔ _ :=
      Junction.costToGoColumn_allows_iff hbound
    rw [h.columns, h.sense, ← hallows]
    refine ⟨fun hz => ⟨?_, ?_⟩, fun hz => List.rel_append hz.1 (.cons hz.2 .nil)⟩
    · have htake := List.forall₂_take base.columns.length hz
      rwa [List.take_left, ← hy, List.take_left] at htake
    · have hdrop := List.forall₂_drop base.columns.length hz
      rw [List.drop_left, ← hy, List.drop_left] at hdrop
      exact (List.forall₂_cons.mp hdrop).1
  have hrows : (∀ r ∈ m.rows.map (Row.assign as), r.Holds (y ++ [v])) ↔
      ∀ r ∈ m.rows.map (Row.assign as), r.Holds y := by
    refine forall₂_congr fun r hr => ?_
    obtain ⟨r₀, hr₀, rfl⟩ := List.mem_map.mp hr
    have hactivity := Row.activity_append (r := r₀.assign as) (y := y)
      (fun t ht => hy ▸ h.terms r₀ hr₀ t ht) [v]
    exact ⟨fun hz => hz.congr hactivity.symm, fun hz => hz.congr hactivity⟩
  have hcuts : (∀ r ∈ cuts.map (m.cutRow m.lagged 0), r.Holds (y ++ [v])) ↔
      ∀ c ∈ cuts, m.sense.orient (m.cutValue m.lagged c y) ≤ m.sense.orient v := by
    have hlast : (y ++ [v]).getD base.columns.length 0 = v := by simp [← hy]
    simp only [List.forall_mem_map, holds_cutRow, h.column, Option.getD_some, hlast,
      h.cutValue_append hy, Sense.orient_sub,
      sub_nonneg]
  rw [Program.feasible_iff, hwithin]
  change _ ∧ (∀ r ∈ m.rows.map (Row.assign as) ++ cuts.map (m.cutRow m.lagged 0),
    r.Holds (y ++ [v])) ↔ _
  rw [List.forall_mem_append, hrows, hcuts]
  tauto

omit [IsStrictOrderedRing α] in
theorem Topped.objective_posed (h : base.Topped discount bound m)
    (hy : y.length = base.columns.length) (v : α) :
    (m.posed as cuts).objective (y ++ [v]) = base.program.objective y + discount * v := by
  have hcost : (Junction.costToGoColumn base.sense discount (.fin bound)).cost = discount := by
    cases base.sense <;> rfl
  change m.constant + Scalar.dot (m.columns.map (·.cost)) (y ++ [v]) = _
  rw [h.constant, h.columns, List.map_append, Scalar.dot_append (by simp [hy])]
  simp [Program.objective, program, hcost, Scalar.dot_cons, add_assoc]

/-- At an optimum the cost-to-go is the tightest of the bound and the cuts, because it could be
moved there. -/
theorem Topped.epigraph (h : base.Topped discount bound m) (hdiscount : 0 < discount)
    (hbound : |bound| < Limit.threshold)
    {Q : Program α} (hQ : Q.anonymous = (m.posed as cuts).anonymous) {o : Optimum α}
    (ho : Q.IsOptimum o) :
    ∃ y v, o.point = y ++ [v] ∧ y.length = base.columns.length ∧
      v = (cuts.map fun c => m.cutValue m.lagged c o.point).foldr m.sense.tighter bound ∧
      o.value = base.program.objective y + discount * v := by
  have hobjective : Q.objective = (m.posed as cuts).objective := (congrArg Program.objective hQ :)
  have hsense : Q.sense = m.sense := (congrArg Program.sense hQ :)
  have hfeasible := Program.feasible_of_anonymous hQ ho.feasible
  obtain ⟨y, v, hpoint, hy⟩ : ∃ y v, o.point = y ++ [v] ∧ y.length = base.columns.length := by
    have hlength : o.point.length = base.columns.length + 1 := by
      rw [hfeasible.1]
      change m.columns.length = _
      rw [h.columns, List.length_append, List.length_singleton]
    have hne : o.point ≠ [] := by
      intro hnil
      rw [hnil] at hlength
      cases hlength
    exact ⟨_, _, (List.dropLast_append_getLast hne).symm, by
      rw [List.length_dropLast, hlength, Nat.add_sub_cancel]⟩
  set values := cuts.map fun c => m.cutValue m.lagged c y with hvalues
  have hheld (w : α) : m.sense.orient (values.foldr m.sense.tighter bound) ≤ m.sense.orient w ↔
      m.sense.orient bound ≤ m.sense.orient w ∧
      ∀ c ∈ cuts, m.sense.orient (m.cutValue m.lagged c y) ≤ m.sense.orient w := by
    rw [Sense.orient_foldr_tighter, hvalues, List.forall_mem_map]
  rw [hpoint, h.feasible_posed_iff hbound hy, ← hheld] at hfeasible
  -- the same decision with the tightest value is a point as well
  have hmoved : Q.Feasible (y ++ [values.foldr m.sense.tighter bound]) := by
    refine Program.feasible_of_anonymous hQ.symm
      ((h.feasible_posed_iff hbound hy _).mpr ⟨hfeasible.1, ?_⟩)
    exact (hheld _).mp le_rfl
  have hleast := ho.least _ hmoved
  have hvalue := ho.value
  rw [hobjective, hpoint, h.objective_posed hy] at hvalue
  rw [← hvalue, hobjective, h.objective_posed hy, hsense, Sense.orient_add, Sense.orient_add,
    add_le_add_iff_left,
    Sense.orient_mul, Sense.orient_mul, mul_le_mul_iff_of_pos_left hdiscount] at hleast
  have horient := congrArg m.sense.orient (le_antisymm hleast hfeasible.2)
  rw [Sense.orient_orient, Sense.orient_orient] at horient
  refine ⟨y, v, hpoint, hy, ?_, hvalue.symm⟩
  simp only [hpoint, h.cutValue_append hy]
  exact horient

/-! ### From set-up to a solve -/

variable [Numeral α] {M M' : Stage α} {x : Solution α} {lp : Solver α} {first lagged pruning : Bool}

def setUp (sense : Sense) (pruning lagged first : Bool) (discount bound : α) : Edit α Unit := do
  setUpCostToGo (.ok (discount, .fin bound))
  setUpPool sense pruning lagged
  setUpLinks first

inductive Turn (α : Type) where
  | scenario (k : Datum α)
  | incoming (state : List α) (noise : Option (List α))
  | given (state noise : Datum α)
  | upkeep (step : Upkeep α)
  | solve (lp : Solver α) (phase : String) (sample : Datum α)

def Turn.run : Turn α → Edit α Unit
  | .scenario k => enterScenario k
  | .incoming state noise => enterIncoming state noise
  | .given state noise => enterData state noise
  | .upkeep step => step.run
  | .solve lp phase sample => do let _ ← Stage.solve lp phase sample

/-- The model after some turns. One that fails leaves behind what it has done, and the next one goes
on from there. -/
def turned (turns : List (Turn α)) (m : Stage α) : Stage α :=
  turns.foldl (fun M turn => (turn.run.on M).2) m

omit [IsStrictOrderedRing α] in
theorem topped_of_setUp {sense : Sense} (hbase : base.WellFormed)
    (h : (setUp sense pruning lagged first discount bound).on base = (.ok (), m)) :
    base.Topped discount bound m := by
  set alpha := Junction.costToGoColumn base.sense discount (.fin bound) with halpha
  set j := Junction.of base first lagged (some alpha) fun _ => False with hj
  have hsplit : setUp sense pruning lagged first discount bound = (do
      setUpCostToGo ((.ok (.fin bound) : Except (Fault α) (Limit α)).map
        fun bound => (discount, bound))
      setUpPool sense pruning j.lagged) >>= fun _ => setUpLinks first := (bind_assoc _ _ _).symm
  rw [hsplit] at h
  obtain ⟨_, s, hcostToGo, hlinks⟩ := Run.exists_of_bind h
  have hunlinked : j.Unlinked s := by
    refine ((Junction.setUpCostToGo_triple (j := j) hbase sense pruning fun limit hlimit => ?_) base
      rfl).1 () s hcostToGo |>.1
    obtain rfl := Except.ok.inj hlimit
    rfl
  have hjoined : j.AtRest Junction.AnyLink m :=
    ((Junction.setUpLinks_triple hbase) s hunlinked).1 () m hlinks |>.1
  have hframe := hjoined.frame
  refine ⟨by rw [hframe]; rfl, by rw [hframe]; rfl, by rw [hframe]; rfl, by rw [hframe]; rfl,
    fun r hr t ht => ?_, ?_, ?_⟩
  · cases hjoined.rows r hr with
    | base r₀ mem same =>
      rw [same] at ht
      exact hbase.terms r₀ mem t ht
    | link i column id copy terms =>
      obtain rfl : t = (column, 1) := by simpa [terms] using ht
      exact hbase.copies column (List.mem_of_getElem? copy)
    | initial fresh issued column d first mem given value terms =>
      obtain rfl : t = (column, 1) := by simpa [terms] using ht
      exact hbase.copies column (List.mem_append_left _ (List.of_mem_zip mem).1)
    | cut fresh issued c valid => exact valid.elim
  · rw [hframe]
    exact hbase.states
  · rw [hframe]
    exact hbase.noise

omit [IsStrictOrderedRing α] in
theorem settled_of_setUp {sense : Sense} (hbase : base.WellFormed)
    (h : (setUp sense pruning lagged first discount bound).on base = (.ok (), m)) : m.Settled := by
  have hsetUp : Keeps (Placed first)
      (setUp sense pruning lagged first discount bound : Edit α Unit) :=
    (setUpCostToGo_placed _).bind fun _ =>
      (setUpPool_keeps sense pruning lagged).bind fun _ => setUpLinks_keeps
  have hplaced := Keeps.iff_on.mp hsetUp base
    ⟨hbase.settled, fun _ => by simp [linkRows, hbase.unlinked]⟩
  rw [h] at hplaced
  exact hplaced.settled

/-! ### Turns -/

omit [IsStrictOrderedRing α] in
theorem setRhsFrom_enters (m : Stage α) (ids : List ℕ) (d : Datum α) :
    ∃ as, m.Enters (setRhsFrom ids d) ids as := by
  unfold setRhsFrom
  split_ifs with hids
  · exact ⟨[], _, [], .pure, by simp, fun _ => ⟨rfl, (List.isEmpty_iff.mp hids).symm⟩⟩
  · rcases d.items? with _ | items
    · exact ⟨[], .of_error .throw⟩
    · dsimp only
      rcases (Datum.reals items : Except (Fault α) (List α)) with e | xs
      · exact ⟨[], .of_error (Assigns.bind_error .ofExcept)⟩
      · exact ⟨_, setRhsAll_enters ids xs⟩

omit [IsStrictOrderedRing α] in
theorem enterData_enters (m : Stage α) (state noise : Datum α) :
    ∃ as, m.Enters (enterData state noise) m.linkRows as := by
  obtain ⟨as, has⟩ := setRhsFrom_enters m m.links state
  obtain ⟨bs, hbs⟩ := setRhsFrom_enters m m.noiseLinks noise
  refine ⟨as ++ bs, .get_bind (fun M hM => ?_) (has.bind hbs)⟩
  have hlinks : M.links = m.links := (congrArg links hM :)
  have hnoiseLinks : M.noiseLinks = m.noiseLinks := (congrArg noiseLinks hM :)
  rw [hlinks, hnoiseLinks]

omit [IsStrictOrderedRing α] in
theorem Kept.enters {act : Edit α Unit} {ids : List ℕ} {cs : List (ℕ × α)} (h : m.Kept M)
    (hm : m.Settled)
    (hact : m.Enters act ids cs) (hids : ∀ id ∈ ids, id ∈ m.linkRows ∨ id ∈ m.randomRows) :
    m.Kept (act.on M).2 := by
  obtain ⟨as, rows, has, hM⟩ := h
  obtain ⟨M', bs, hrun, -, hbs, hM', -⟩ :=
    hact.on (fun id hid => (hids id hid).elim (hm.links id) (hm.random id)) hM
  rw [hrun]
  exact ⟨_, rows, fun a ha => (List.mem_append.mp ha).elim (has a)
    fun ha => hids a.1 (hbs a ha), hM'⟩

omit [IsStrictOrderedRing α] in
theorem Kept.upkeep (h : m.Kept M) (hm : m.Settled) (step : Upkeep α) :
    m.Kept (step.run.on M).2 := by
  obtain ⟨as, rows, has, hM⟩ := h
  obtain ⟨rows', hM'⟩ := step.run_bears (Bears.base_lt hm) hM
  exact ⟨as, rows', has, hM'⟩

omit [IsStrictOrderedRing α] in
theorem Kept.optimize (h : m.Kept M) (lp : Solver α) (phase : String) (sample : Datum α) :
    m.Kept ((Stage.optimize lp phase sample).on M).2 := by
  obtain ⟨as, rows, has, hM⟩ := h
  have hstate : ∃ status solution,
      ((Stage.optimize lp phase sample).on M).2 = { M with status, solution } := by
    simp only [Run.on, Stage.optimize]
    split <;> exact ⟨_, _, rfl⟩
  obtain ⟨status, solution, hstate⟩ := hstate
  rw [hstate]
  exact ⟨as, rows, has, hM.frame, hM.issued, hM.rows, hM.none, hM.some⟩

omit [IsStrictOrderedRing α] in
/-- No turn changes a model for good, however it ends. -/
theorem Turn.keeps (hm : m.Settled) (turn : Turn α) : Keeps m.Kept turn.run := by
  refine Keeps.iff_on.mpr fun M hM => ?_
  cases turn with
  | scenario k => exact hM.enters hm (enterScenario_enters m k) fun _ => .inr
  | incoming state noise => exact hM.enters hm (enterIncoming_enters m state noise) fun _ => .inl
  | given state noise =>
    obtain ⟨as, has⟩ := enterData_enters m state noise
    exact hM.enters hm has fun _ => .inl
  | upkeep step => exact hM.upkeep hm step
  | solve lp phase sample =>
    have hattach : Keeps m.Kept (Stage.attach : Edit α Unit) := Keeps.iff_on.mpr fun M hM =>
      hM.upkeep hm .attach
    have hoptimize : Keeps m.Kept (Stage.optimize lp phase sample) :=
      Keeps.iff_on.mpr fun M hM => hM.optimize lp phase sample
    exact Keeps.iff_on.mp ((hattach.bind fun _ => hoptimize).bind fun _ => .pure) M hM

omit [IsStrictOrderedRing α] in
theorem kept_turned (hm : m.Settled) (turns : List (Turn α)) (h : m.Kept M) :
    m.Kept (turned turns M) := by
  induction turns generalizing M with
  | nil => exact h
  | cons turn turns ih => exact ih (Keeps.iff_on.mp (turn.keeps hm) M h)

/-! ### At an optimum -/

omit [IsStrictOrderedRing α] in
/-- A cut that fits a model has a value at every point. It depends on the noise only if the
cost-to-go function does. -/
theorem value?_of_checkRow {c : Cut α} (hc : m.checkRow lagged c = .ok ())
    (hnoise : lagged = false → c.noiseSlopes = []) (y : List α) : c.value? (m.outState y)
    (some (m.outNoise y)) = .ok (m.cutValue lagged c y) := by
  have hlength {columns : List ℕ} {slopes : List α} {terms : List (ℕ × α)}
      (h : linearTerms columns slopes = .ok terms) :
      slopes.length = columns.length := by
    by_contra hne
    simp [linearTerms, Ne.symm hne] at h
  obtain ⟨_, hcheck, -⟩ := ok_of_bind hc
  obtain ⟨_, -, hcheck⟩ := ok_of_bind hcheck
  obtain ⟨_, hterms, hcheck⟩ := ok_of_bind hcheck
  have hstate : c.slopes.length = (m.outState y).length := by
    rw [hlength hterms, outState, List.length_map]
  rw [cutValue_eq m hnoise]
  refine Cut.value?_some hstate ?_
  cases lagged with
  | false => exact .inl (hnoise rfl)
  | true =>
    obtain ⟨_, -, hcheck⟩ := ok_of_bind hcheck
    obtain ⟨_, hterms, -⟩ := ok_of_bind hcheck
    exact .inr (by rw [hlength hterms, outNoise, List.length_map])

omit [IsStrictOrderedRing α] in
/-- A solve that answers was handed the program of the rows as they are now and of the stored cuts,
all of which fit. -/
theorem Kept.solved (h : m.Kept M) (hm : m.Settled) {phase : String} {sample : Datum α}
    (hrun : (Stage.solve lp phase sample).on M = (.ok x, M')) :
    ∃ as Q o, Q.anonymous = (m.posed as M.cuts).anonymous ∧ lp Q = .optimal o ∧ x.point = o.point ∧
      x.value = o.value ∧
      M'.bare = m.bare ∧ M'.cuts = M.cuts ∧ ∀ c ∈ M.cuts, m.checkRow m.lagged c = .ok () := by
  obtain ⟨as, rows, -, hM⟩ := h
  obtain ⟨_, M₁, hattach, hoptimize⟩ := Run.exists_of_bind hrun
  obtain ⟨M₁', rows', hattach', hM₁, hpool, hrows⟩ := attach_spec (Bears.base_lt hm) hM
  obtain ⟨hfit, rfl⟩ := Prod.mk.inj (hattach'.symm.trans hattach)
  obtain ⟨o, hverdict, hvalue, hpoint, hM'⟩ :
    ∃ o, lp M₁'.program = .optimal o ∧ x.value = o.value ∧ x.point = o.point ∧
      M' = { M₁' with status := .optimal, solution := some x } := by
    simp only [Run.on, Stage.optimize] at hoptimize
    rcases hlp : lp M₁'.program with o | _ | _ | _ <;> rw [hlp] at hoptimize <;> cases hoptimize
    exact ⟨o, rfl, rfl, rfl, rfl⟩
  refine ⟨as, _, o, hM₁.program_eq (hrows hfit), hverdict, hpoint, hvalue, ?_, ?_,
    fun c hc => ok_of_forM hfit hc⟩
  · rw [hM']
    exact hM₁.frame
  · rw [cuts, cuts, ← hpool, hM']
    rfl

/-- After every successful solve the cost-to-go variable is the tightest of its bound and of the
stored cuts at the optimal point, whatever was done with the model before. So the optimal value less
the discounted cost-to-go is the cost of the decision in the model as it was written. -/
theorem solve_epigraph {sense : Sense} (hbase : base.WellFormed) (hdiscount : 0 < discount)
    (hbound : |bound| < Limit.threshold)
    (hsetUp : (setUp sense pruning lagged first discount bound).on base = (.ok (), m))
    (turns : List (Turn α)) (hM : turned turns m = M)
    (hvariant : ∀ c ∈ M.cuts, M.lagged = false → c.noiseSlopes = [])
    (hlp : ∀ Q o, lp Q = .optimal o → Q.IsOptimum o) {phase : String} {sample : Datum α}
    (hsolve : (Stage.solve lp phase sample).on M = (.ok x, M')) :
    ∃ column values, M'.costToGoColumn = some column ∧ M'.cuts = M.cuts ∧
      (M'.cuts.mapM fun c => c.value? (M'.outState x.point) (some (M'.outNoise x.point))) =
      .ok values ∧
      x.valueAt column = values.foldr M'.sense.tighter bound ∧
      x.value - discount * x.valueAt column = base.program.objective
        (x.point.take base.columns.length) ∧
      ∀ t, M'.ownCost discount t x = discount ^ t * base.program.objective
        (x.point.take base.columns.length) := by
  have htopped := topped_of_setUp hbase hsetUp
  have hm := settled_of_setUp hbase hsetUp
  have hkept : m.Kept M := hM ▸ kept_turned hm turns hm.kept
  obtain ⟨as, Q, o, hQ, hverdict, hpoint, hvalue, hframe, hcuts, hfit⟩ := hkept.solved hm hsolve
  obtain ⟨y, v, hpoint', hy, hv, hvalue'⟩ := htopped.epigraph hdiscount hbound hQ (hlp Q o hverdict)
  have hlagged : M.lagged = m.lagged := by rw [← lagged_bare M, hkept.frame, lagged_bare]
  have hcolumn : M'.costToGoColumn = some base.columns.length :=
    (congrArg costToGoColumn hframe :).trans htopped.column
  have hlast : x.valueAt base.columns.length = v := by
    rw [Solution.valueAt, hpoint, hpoint']
    simp [← hy]
  have hown : x.value - discount * x.valueAt base.columns.length =
      base.program.objective (x.point.take base.columns.length) := by
    rw [hlast, hvalue, hvalue', hpoint, hpoint', ← hy, List.take_left, add_sub_cancel_right]
  have hstate : M'.outState x.point = m.outState x.point :=
    (congrArg (fun M : Stage α => M.outState x.point) hframe :)
  have hnoise : M'.outNoise x.point = m.outNoise x.point :=
    (congrArg (fun M : Stage α => M.outNoise x.point) hframe :)
  have hsense : M'.sense = m.sense := (congrArg Stage.sense hframe :)
  refine ⟨_, M.cuts.map fun c => m.cutValue m.lagged c x.point, hcolumn, hcuts, ?_, ?_, hown,
    fun t => ?_⟩
  · rw [hcuts, hstate, hnoise]
    exact mapM_ok fun c hc =>
      value?_of_checkRow (hfit c hc) (fun hlag => hvariant c hc (hlagged.trans hlag)) x.point
  · rw [hlast, hsense, hpoint]
    exact hv
  · rw [ownCost, hcolumn]
    dsimp only
    rw [hown, Scalar.pow_eq]

/-! ### A basin -/

def basin : Stage ℚ :=
  { Stage.empty "basin" .null .null .minimize with
    columns := [⟨"level", .fin 0, .fin 8, 1⟩, ⟨"level_local_copy", .fin 0, .fin 8, 0⟩]
    rows := [⟨0, "rise", [(0, 1), (1, -1)], .atLeast, 2⟩]
    issued := 1
    states := [0]
    copies := [1] }

theorem basin_wellFormed : basin.WellFormed where
  terms := by decide
  ids := by decide
  issued := by decide
  random := by decide
  states := by decide
  noise := by decide
  copies := by decide
  unlinked := ⟨rfl, rfl, rfl⟩
  noCostToGo := ⟨rfl, rfl⟩

/-- The basin at a level of one. A cut is attached, and another one waits. -/
def basinTurns : List (Turn ℚ) :=
  [.upkeep (.add (Cut.through 0 0 7 [-1] [0] [] [])), .incoming [1] none, .upkeep .attach,
    .upkeep (.add (Cut.through 0 0 2 [0] [0] [] []))]

/-- The level rises to three, where the first cut holds the cost-to-go. -/
def basinOptimum : Solver ℚ := fun _ =>
  .optimal { point := [3, 1, 4], value := 5, duals := [1 / 2, 1 / 2, 1 / 2, 0] }

def basinJoined : Stage ℚ := ((setUp .minimize false false false (1 / 2) 0).on basin).2

def basinSolved : Except (Fault ℚ) (Solution ℚ) × Stage ℚ :=
  (Stage.solve basinOptimum.verified "forward" .null).on (turned basinTurns basinJoined)

theorem solve_epigraph_basin :
    (setUp .minimize false false false (1 / 2) 0).on basin = (.ok (), basinJoined) ∧
    ∃ x M' values, basinSolved = (.ok x, M') ∧ x.point = [3, 1, 4] ∧ values = [4, 2] ∧
      (M'.cuts.mapM fun c => c.value? (M'.outState x.point) (some (M'.outNoise x.point))) =
      .ok values ∧
      x.valueAt 2 = values.foldr max 0 ∧
      M'.ownCost (1 / 2) 1 x = (1 / 2) ^ 1 * basin.program.objective [3, 1] := by
  have hsetUp : (setUp .minimize false false false (1 / 2) 0).on basin = (.ok (), basinJoined) :=
    Run.on_of_isOk (by decide +kernel)
  obtain ⟨x, hx⟩ : ∃ x, basinSolved.1.toOption = some x := Option.isSome_iff_exists.mp
    (by decide +kernel)
  have hsolve : basinSolved = (.ok x, basinSolved.2) := Run.on_of_answer hx
  have hpoint : x.point = [3, 1, 4] := by
    have : basinSolved.1.toOption.map Solution.point = some [3, 1, 4] := by decide +kernel
    rw [hx] at this
    exact Option.some.inj this
  obtain ⟨column, values, hcolumn, -, hvalues, halpha, -, hown⟩ :=
    solve_epigraph basin_wellFormed (by norm_num)
    (by norm_num [Limit.threshold]) hsetUp basinTurns rfl (by decide +kernel)
    (fun _ _ ho => basinOptimum.verified_exact.isOptimum ho) hsolve
  have hcolumn' : basinSolved.2.costToGoColumn = some 2 := by decide +kernel
  obtain rfl : column = 2 := Option.some.inj (hcolumn.symm.trans hcolumn')
  have hsense : basinSolved.2.sense = .minimize := by decide +kernel
  rw [hsense] at halpha
  have hown := hown 1
  rw [hpoint] at hown
  refine ⟨hsetUp, x, basinSolved.2, values, hsolve, hpoint, ?_, hvalues, halpha, hown⟩
  rw [hpoint] at hvalues
  exact Except.ok.inj (hvalues.symm.trans (ok_of_toOption (by decide +kernel)))

end Stage

end Recourse
