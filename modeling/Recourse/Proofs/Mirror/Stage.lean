import Recourse.Proofs.Coupling
import Recourse.Proofs.Mirror.Program
import Recourse.Proofs.Multistage.History

/-! Work on a model, and on the same model from the other side. Whatever is entered, attached or
solved on both, they remain the same but for the side. -/

namespace Recourse

open Run (Alike Coupled Keeps Triple)

variable {α β : Type}

variable [Field α] [LinearOrder α]

namespace Stage

variable {m m' : Stage α} {n i : ℕ} {column : Option ℕ}

structure Opposed (n : ℕ) (column : Option ℕ) (m m' : Stage α) : Prop where
  proper : m.Proper
  length : m.columns.length = n
  column : m.costToGoColumn = column
  mirror : m' = m.mirror

/-- An operation that neither touches the variables nor makes a model improper does the same from
the other side. -/
theorem Opposed.coupled {γ : Type} {act : Edit α β} {act' : Edit α γ} {A : β → γ → Prop}
    (h : ∀ m : Stage α, m.Proper → m.columns.length = n → m.costToGoColumn = column →
      Opposed n column (act.on m).2 (act'.on m.mirror).2 ∧
      Alike A (act.on m).1 (act'.on m.mirror).1) :
    Coupled (Opposed n column) act act' A := by
  rintro m _ ⟨hproper, hlength, hcolumn, rfl⟩
  exact (h m hproper hlength hcolumn).symm

/-! ### Rows -/

theorem putRhs_opposed (id : ℕ) (x : α) :
    Coupled (Opposed n column) (putRhs id x) (putRhs id x) Eq := by
  refine Opposed.coupled fun m hm hlength hcolumn =>
    ⟨⟨⟨hm.apart, fun hnone => ?_⟩, hlength, hcolumn, ?_⟩, .ok rfl⟩
  · refine List.forall_mem_map.mpr fun r hr => ?_
    have hterms : (if r.id = id then { r with rhs := x } else r).terms = r.terms := by
      split_ifs <;> rfl
    rw [hterms]
    exact hm.terms hnone r hr
  · have hrows : (m.rows.map (Row.mirror m.costToGoColumn)).map
        (fun r => if r.id = id then { r with rhs := x } else r) =
        (m.rows.map fun r => if r.id = id then { r with rhs := x } else r).map
        (Row.mirror m.costToGoColumn) := by
      rw [List.map_map, List.map_map]
      refine List.map_congr_left fun r _ => ?_
      by_cases hid : r.id = id <;> simp [Row.mirror, hid]
    exact congrArg (fun rows => { m.discard.mirror with rows }) hrows

theorem setRhs_opposed (id : ℕ) (x : α) :
    Coupled (Opposed n column) (setRhs id x) (setRhs id x) Eq :=
  .ite (Coupled.bind_same .throw fun _ => putRhs_opposed id x) (putRhs_opposed id x)

theorem setRhsAll_opposed (ids : List ℕ) (xs : List α) :
    Coupled (Opposed n column) (setRhsAll ids xs) (setRhsAll ids xs) Eq :=
  have hall := Coupled.forM fun a _ => putRhs_opposed a.1 a.2
  .ite (Coupled.bind_same .throw fun _ => hall) hall

def mirrorTerms (column : Option ℕ) (terms : List (ℕ × α)) : List (ℕ × α) :=
  terms.map fun t => (t.1, signedAt column t.1 t.2)

theorem putRow_opposed (name : String) {terms : List (ℕ × α)}
    (hterms : column = none → ∀ t ∈ terms, t.1 < n) (relation : Relation) (rhs : α) :
    Coupled (Opposed n column) (putRow name terms relation rhs)
      (putRow name (mirrorTerms column terms) relation rhs) Eq := by
  refine Opposed.coupled fun m hm hlength hcolumn =>
    ⟨⟨⟨hm.apart, fun hnone r hr => ?_⟩, hlength, hcolumn, ?_⟩, .ok rfl⟩
  · rcases List.mem_append.mp hr with hr | hr
    · exact hm.terms hnone r hr
    · obtain rfl := List.mem_singleton.mp hr
      exact fun t ht => (hterms (hcolumn.symm.trans hnone) t ht).trans_eq hlength.symm
  · subst hcolumn
    have hrows (r : Row α) : m.rows.map (Row.mirror m.costToGoColumn) ++
        [r.mirror m.costToGoColumn] =
        (m.rows ++ [r]).map (Row.mirror m.costToGoColumn) := by
      rw [List.map_append, List.map_singleton]
    exact congrArg (fun rows => { m.discard.mirror with rows, issued := m.issued + 1 })
      (hrows ⟨m.issued, if name.isEmpty then "R" ++ toString m.issued else name, terms,
      relation, rhs⟩)

/-- The rows that are added in set-up are about a single variable, which is not the cost-to-go. -/
theorem addRow_opposed (name : String) (hi : i < n ∧ column ≠ some i) (relation : Relation)
    (rhs : α) :
    Coupled (Opposed n column) (addRow name [(i, 1)] relation rhs)
      (addRow name [(i, 1)] relation rhs) Eq := by
  have hterms : mirrorTerms column [(i, (1 : α))] = [(i, 1)] := by
    simp [mirrorTerms, signedAt, hi.2]
  have hput : Coupled (Opposed n column) (putRow name [(i, (1 : α))] relation rhs)
      (putRow name (mirrorTerms column [(i, 1)]) relation rhs) Eq :=
      putRow_opposed name (by simp [hi.1]) relation rhs
  rw [hterms] at hput
  exact .ite (Coupled.bind_same .throw fun _ => .ite (Coupled.bind_same .throw fun _ => hput) hput)
    (.ite (Coupled.bind_same .throw fun _ => hput) hput)

theorem removeRows_opposed (ids : List ℕ) :
    Coupled (Opposed n column) (removeRows ids : Edit α Unit) (removeRows ids) Eq := by
  refine Opposed.coupled fun m hm hlength hcolumn => ?_
  simp only [Run.on, removeRows]
  split_ifs
  · exact ⟨⟨hm, hlength, hcolumn, rfl⟩, .ok rfl⟩
  · refine ⟨⟨⟨hm.apart, fun hnone r hr => hm.terms hnone r (List.mem_of_mem_filter hr)⟩, hlength,
      hcolumn, ?_⟩, .ok rfl⟩
    have hrows : (m.rows.map (Row.mirror m.costToGoColumn)).filter (fun r => !ids.contains r.id) =
        (m.rows.filter fun r => !ids.contains r.id).map (Row.mirror m.costToGoColumn) := by
      rw [List.filter_map]
      rfl
    exact congrArg (fun rows => { m.discard.mirror with rows }) hrows

/-! ### Entering -/

theorem enterIncoming_opposed (state : List α) (noise : Option (List α)) :
    Coupled (Opposed n column) (enterIncoming state noise) (enterIncoming state noise) Eq := by
  refine Coupled.get_bind fun m m' h => ?_
  rw [h.mirror, show m.mirror.links = m.links from rfl,
    show m.mirror.noiseLinks = m.noiseLinks from rfl]
  cases noise with
  | none =>
    exact .ite ((setRhsAll_opposed _ _).bind_same fun _ => .ite .throw (.pure rfl))
      (.ite .throw (.pure rfl))
  | some noise =>
    have hnoise : Coupled (Opposed n column)
        (if !m.noiseLinks.isEmpty then setRhsAll m.noiseLinks noise else pure ())
        (if !m.noiseLinks.isEmpty then setRhsAll m.noiseLinks noise else pure ()) Eq :=
      .ite (setRhsAll_opposed _ noise) (.pure rfl)
    exact .ite ((setRhsAll_opposed _ _).bind_same fun _ => hnoise) hnoise

theorem enterSample_opposed (k : ℤ) (r : RandomRhs α) :
    Coupled (Opposed n column) (enterSample k r) (enterSample k r) Eq := by
  cases r with
  | single row samples => exact (Coupled.ofExcept_eq rfl).bind_same fun x => setRhs_opposed row x
  | block rows samples =>
    exact (Coupled.ofExcept_eq rfl).bind_same fun xs => setRhsAll_opposed rows xs

theorem enterScenario_opposed (k : Datum α) :
    Coupled (Opposed n column) (enterScenario k) (enterScenario k) Eq := by
  refine Coupled.get_bind fun m m' h => ?_
  rw [h.mirror, show m.mirror.random = m.random from rfl]
  exact Coupled.forM fun r _ => (Coupled.ofExcept_eq rfl).bind_same fun k => enterSample_opposed k r

/-! ### Cuts -/

theorem linearTerms_neg (columns : List ℕ) (xs : List α) (r : Except (Fault α) β) :
    (linearTerms columns (xs.map (-·)) >>= fun _ => r) =
    (linearTerms columns xs >>= fun _ => r) := by
  have hfinite (xs : List α) : xs.all Scalar.isFinite = true := List.all_eq_true.mpr fun x _ =>
    Scalar.isFinite_eq x
  simp only [linearTerms, List.length_map, hfinite]
  split_ifs <;> rfl

theorem cutTerms_mirror (h : m.Proper) (hcolumn : m.costToGoColumn = some i) (lagged : Bool)
    (c : Cut α) :
    m.mirror.cutTerms lagged i c.mirror = mirrorTerms (some i) (m.cutTerms lagged i c) := by
  have hslopes (columns : List ℕ) (hcolumns : ∀ j ∈ columns, m.costToGoColumn ≠ some j)
      (xs : List α) :
      (columns.zip (xs.map (-·))).map (fun t => (t.1, -(m.sense.opposite.orient t.2))) =
        mirrorTerms (some i) ((columns.zip xs).map fun t => (t.1, -(m.sense.orient t.2))) := by
    rw [List.zip_map_right, mirrorTerms, List.map_map, List.map_map]
    refine List.map_congr_left fun t ht => ?_
    have hne : i ≠ t.1 := fun heq => hcolumns t.1 (List.of_mem_zip ht).1 (heq ▸ hcolumn)
    simp [signedAt, hne]
  have hstates := hslopes m.states (fun j hj => h.state_ne hj) c.slopes
  have hnoise := hslopes m.noise (fun j hj => h.noise_ne hj) c.noiseSlopes
  have hfirst : (i, m.sense.opposite.orient (1 : α)) =
      (i, signedAt (some i) i (m.sense.orient 1)) := by
    rw [signedAt, if_pos rfl, Sense.orient_opposite]
  rw [cutTerms, cutTerms, mirrorTerms, List.map_cons]
  refine congrArg₂ List.cons hfirst ?_
  cases lagged with
  | false =>
    rw [if_neg Bool.false_ne_true, if_neg Bool.false_ne_true, List.append_nil, List.append_nil]
    exact hstates
  | true =>
    rw [if_pos rfl, if_pos rfl, List.map_append, List.map_append, List.map_append]
    exact congrArg₂ (· ++ ·) hstates hnoise

variable [Numeral α]

theorem checkEntries_mirror (c : Cut α) (inNoise : Bool) :
    c.mirror.checkEntries inNoise = c.checkEntries inNoise := by
  have hreal (xs : List α) : ((xs.map Datum.real).forM fun d => d.asNumeral.map fun _ => ()) =
      (.ok () : Except (Fault α) Unit) := by
    induction xs with
    | nil => rfl
    | cons x xs ih => exact ih
  have hplain (c : Cut α) (hentries : c.entries = none) : c.checkEntries inNoise = .ok () := by
    rw [Cut.checkEntries, Cut.row, hentries, Option.getD_none, ← List.map_take, ← List.map_drop,
      ← apply_ite (List.map Datum.real)]
    exact hreal _
  cases hentries : c.entries with
  | none => rw [hplain c hentries, hplain c.mirror hentries]
  | some entries =>
    have hrow : c.mirror.row = c.row := by
      rw [Cut.row, Cut.row, hentries, show c.mirror.entries = some entries from hentries]
      rfl
    have hlength : c.mirror.slopes.length = c.slopes.length := List.length_map _
    rw [Cut.checkEntries, Cut.checkEntries, hrow, hlength]

theorem checkCut_mirror (m : Stage α) (lagged : Bool) (c : Cut α) :
    m.mirror.checkCut lagged c.mirror = m.checkCut lagged c := by
  unfold checkCut
  rw [checkEntries_mirror, checkEntries_mirror]
  refine bind_congr fun _ => (linearTerms_neg m.states c.slopes _).trans ?_
  refine bind_congr fun _ => ?_
  cases lagged with
  | false => rfl
  | true => exact bind_congr fun _ => linearTerms_neg m.noise c.noiseSlopes _

theorem attachCut_opposed (lagged : Bool) (c : Cut α) :
    Coupled (Opposed n column) (attachCut lagged c) (attachCut lagged c.mirror) Eq := by
  refine Coupled.get_bind fun m m' h => ?_
  obtain ⟨hproper, -, hcolumn, rfl⟩ := h
  rw [checkCut_mirror]
  refine (Coupled.ofExcept_eq rfl).bind_same fun _ => ?_
  rw [show m.mirror.costToGoColumn = m.costToGoColumn from rfl]
  rcases hsome : m.costToGoColumn with _ | i
  · exact .throw
  · obtain rfl : column = some i := hcolumn.symm.trans hsome
    have hintercept : m.mirror.sense.orient c.mirror.intercept = m.sense.orient c.intercept :=
      m.sense.orient_opposite_neg c.intercept
    have hput (name : String) : Coupled (Opposed n (some i))
        (putRow name (m.cutTerms lagged i c) .atLeast (m.sense.orient c.intercept))
        (putRow name (m.mirror.cutTerms lagged i c.mirror) .atLeast
        (m.mirror.sense.orient c.mirror.intercept)) Eq := by
      rw [cutTerms_mirror hproper hsome, hintercept]
      exact putRow_opposed name (fun hnone => absurd hnone (Option.some_ne_none i)) _ _
    have hnumber (x : α) : (!Scalar.isNumber x) = false := by rw [Scalar.isNumber_eq, Bool.not_true]
    dsimp only
    rw [hnumber, hnumber, if_neg Bool.false_ne_true, if_neg Bool.false_ne_true]
    refine (hput _).bind_same fun id => Coupled.modify fun m m' h => ?_
    obtain ⟨hproper, hlength, hcolumn, rfl⟩ := h
    refine ⟨⟨hproper.apart, hproper.terms⟩, hlength, hcolumn, ?_⟩
    have hattached : (m.costToGo.map CostToGo.mirror).map (fun ctg => { ctg with
        attached := ctg.attached ++ [(c.index.getD 0, id)] }) =
        (m.costToGo.map fun ctg => { ctg with
        attached := ctg.attached ++ [(c.index.getD 0, id)] }).map CostToGo.mirror := by
      cases m.costToGo <;> rfl
    exact congrArg (fun costToGo => { m.mirror with costToGo }) hattached

omit [Numeral α] in
theorem detach_opposed : Coupled (Opposed n column) (detach : Edit α Unit) detach Eq := by
  refine Coupled.get_bind fun m m' h => ?_
  obtain ⟨hproper, hlength, hcolumn, rfl⟩ := h
  rcases hctg : m.costToGo with _ | ctg
  · rw [show m.mirror.costToGo = none from congrArg (Option.map CostToGo.mirror) hctg]
    exact .pure rfl
  · rw [show m.mirror.costToGo = some ctg.mirror from congrArg (Option.map CostToGo.mirror) hctg]
    have hactive (p : ℕ × ℕ) : ctg.mirror.pool.cuts.any (fun c => c.index == some p.1) =
        ctg.pool.cuts.any fun c => c.index == some p.1 := by
      change (ctg.pool.cuts.map Cut.mirror).any _ = _
      rw [List.any_map]
      rfl
    simp only [hactive, show ctg.mirror.attached = ctg.attached from rfl]
    refine (removeRows_opposed _).bind_same fun _ => Coupled.modify fun m m' h => ?_
    obtain ⟨hproper, hlength, hcolumn, rfl⟩ := h
    exact ⟨⟨hproper.apart, hproper.terms⟩, hlength, hcolumn, rfl⟩

theorem attach_opposed : Coupled (Opposed n column) (attach : Edit α Unit) attach Eq := by
  refine Coupled.get_bind fun m m' h => ?_
  obtain ⟨hproper, hlength, hcolumn, rfl⟩ := h
  rcases hctg : m.costToGo with _ | ctg
  · rw [show m.mirror.costToGo = none from congrArg (Option.map CostToGo.mirror) hctg]
    exact .pure rfl
  · rw [show m.mirror.costToGo = some ctg.mirror from congrArg (Option.map CostToGo.mirror) hctg]
    have hfilter : ctg.mirror.pool.cuts.filter (fun c => !isAttached ctg.mirror.attached c) =
        (ctg.pool.cuts.filter fun c => !isAttached ctg.attached c).map Cut.mirror := by
      change (ctg.pool.cuts.map Cut.mirror).filter _ = _
      rw [List.filter_map]
      rfl
    have hall : Coupled (Opposed n column)
        ((ctg.pool.cuts.filter fun c => !isAttached ctg.attached c).forM (attachCut ctg.lagged))
        (((ctg.pool.cuts.filter fun c => !isAttached ctg.attached c).map Cut.mirror).forM
        (attachCut ctg.lagged)) Eq := by
      exact Coupled.forM_map fun c _ => attachCut_opposed ctg.lagged c
    dsimp only
    rw [hfilter]
    exact .ite (.pure rfl) (hall.bind_same fun _ => detach_opposed)

/-! ### Solving -/

variable {lp lp' : Solver α}

omit [Numeral α] in
theorem optimize_opposed (hlp : lp.Mirrors lp') (phase : String) (sample : Datum α) :
    Coupled (Opposed n column) (optimize lp phase sample) (optimize lp' phase sample)
      fun x x' => x' = x.mirror column := by
  refine Opposed.coupled fun m hm hlength hcolumn => ?_
  subst hcolumn
  have hverdict : lp' m.mirror.program = (lp m.program).mirror m.costToGoColumn := by
    rw [program_mirror]
    exact hlp m.costToGoColumn m.program
  simp only [Run.on, optimize, hverdict]
  cases lp m.program with
  | optimal o =>
    have hduals : ((m.rows.map (Row.mirror m.costToGoColumn)).map (·.id)).zip (o.duals.map (-·)) =
        ((m.rows.map (·.id)).zip o.duals).map fun d => (d.1, -d.2) := by
      rw [List.map_map, List.zip_map_right]
      rfl
    have hsolution : ({ point := o.point.mapIdx (signedAt m.costToGoColumn), value := -o.value
                        duals := (m.mirror.rows.map (·.id)).zip (o.duals.map (-·)) } : Solution α) =
        Solution.mirror m.costToGoColumn
        { point := o.point, value := o.value, duals := (m.rows.map (·.id)).zip o.duals } :=
      congrArg (fun duals =>
        (⟨o.point.mapIdx (signedAt m.costToGoColumn), -o.value, duals⟩ : Solution α)) hduals
    exact ⟨⟨⟨hm.apart, hm.terms⟩, hlength, rfl,
      congrArg (fun x => { m.mirror with status := .optimal, solution := some x }) hsolution⟩,
        .ok hsolution⟩
  | infeasible => exact ⟨⟨⟨hm.apart, hm.terms⟩, hlength, rfl, rfl⟩, .error _⟩
  | unbounded => exact ⟨⟨⟨hm.apart, hm.terms⟩, hlength, rfl, rfl⟩, .error _⟩
  | gaveUp => exact ⟨⟨⟨hm.apart, hm.terms⟩, hlength, rfl, rfl⟩, .error _⟩

theorem solve_opposed (hlp : lp.Mirrors lp') (phase : String) (sample : Datum α) :
    Coupled (Opposed n column) (solve lp phase sample) (solve lp' phase sample)
      fun x x' => x' = x.mirror column :=
  attach_opposed.bind_same fun _ => optimize_opposed hlp phase sample

theorem follow_opposed (hlp : lp.Mirrors lp') (discount : α) (t : ℕ) (k s : Datum α)
    (arrival : Arrival α) :
    Coupled (Opposed n column) (follow lp discount t k s arrival)
      (follow lp' discount t k s arrival)
      fun v v' => v' = v.seen .maximize := by
  have harrival : Coupled (Opposed n column) (enterArrival arrival) (enterArrival arrival) Eq := by
    cases arrival with
    | none => exact .pure rfl
    | some entry => exact enterIncoming_opposed _ _
  refine harrival.bind_same fun _ =>
    (enterScenario_opposed s).bind_same fun _ => (solve_opposed hlp _ _).bind_map fun x => ?_
  refine Coupled.get_bind fun m m' h => ?_
  obtain ⟨hproper, -, rfl, rfl⟩ := h
  obtain ⟨hstate, hnoise⟩ := Prod.mk.inj (outgoing_mirror hproper x)
  refine .pure ?_
  rw [hstate, hnoise, ownCost_mirror]
  rfl

theorem solveScenario_opposed (hlp : lp.Mirrors lp') (k : ℕ) :
    Coupled (Opposed n column) (solveScenario lp k) (solveScenario lp' k)
      fun r r' => r' = (-r.1, r.2.map (-·)) := by
  refine (enterScenario_opposed _).bind_same fun _ => (solve_opposed hlp _ _).bind_map fun x => ?_
  refine Coupled.get_bind fun m m' h => ?_
  obtain ⟨-, -, rfl, rfl⟩ := h
  refine .pure (Prod.ext rfl ?_)
  change (m.links ++ m.noiseLinks).map _ = ((m.links ++ m.noiseLinks).map x.price).map (-·)
  rw [List.map_map]
  exact List.map_congr_left fun row _ => x.price_mirror row

theorem solveScenarios_opposed (hlp : lp.Mirrors lp') :
    Coupled (Opposed n column) (solveScenarios lp) (solveScenarios lp')
      fun found found' => found' = found.seen .maximize := by
  refine Coupled.get_bind fun m m' h => ?_
  rw [h.mirror, show m.mirror.sampleCount = m.sampleCount from rfl]
  refine (Coupled.mapM_map fun k _ => solveScenario_opposed hlp k).bind_map fun results => .pure ?_
  rw [List.map_map, List.map_map, Outcomes.seen, List.map_map, List.map_map]
  rfl

theorem estimate_opposed (hlp : lp.Mirrors lp') :
    Coupled (Opposed n column) (estimate lp) (estimate lp')
      fun b b' => b' = Sense.maximize.orient b :=
  (enterScenario_opposed _).bind_same fun _ => (solve_opposed hlp _ _).bind_map fun _ => .pure rfl

omit [Numeral α] in
theorem addCut_opposed [IsStrictOrderedRing α] (c : Cut α) :
    Coupled (Opposed n column) (onPool (Pool.add c))
    (onPool (Pool.add c.mirror)) fun r r' => r' = r.map Cut.mirror := by
  refine Opposed.coupled fun m hm hlength hcolumn => ?_
  cases hctg : m.costToGo with
  | none =>
    have hctg' : m.mirror.costToGo = none := congrArg (Option.map CostToGo.mirror) hctg
    rw [onPool_on_none hctg, onPool_on_none hctg']
    exact ⟨⟨hm, hlength, hcolumn, rfl⟩, .error _⟩
  | some ctg =>
    have hctg' : m.mirror.costToGo = some ctg.mirror := congrArg (Option.map CostToGo.mirror) hctg
    rw [onPool_on_some hctg, onPool_on_some hctg', show ctg.mirror.pool = ctg.pool.mirror from rfl,
      Pool.add_mirror]
    refine ⟨⟨⟨hm.apart, hm.terms⟩, hlength, hcolumn, rfl⟩, ?_⟩
    cases ((Pool.add c).on ctg.pool).1 with
    | error e => exact .error e
    | ok r => exact .ok rfl

end Stage

end Recourse
