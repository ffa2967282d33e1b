import Recourse.Proofs.Comparison.Walks

/-! Evaluations of problems that are like each other. What is found from the other side is the same
as seen from there: values are negated, intervals are turned round, and gaps and paths are what they
were. -/

namespace Recourse

open Run (Alike Coupled)

variable {γ α β : Type}

section

variable [Scalar α] (side : Sense)

def Evaluation.seen (e : Evaluation α) : Evaluation α :=
  { e with
    bound := e.bound.map side.orient
    values := e.values.map (List.map side.orient)
    interval := e.interval.map side.turn
    exact := e.exact.map side.orient }

theorem Evaluation.seen_minimize (e : Evaluation α) : e.seen .minimize = e := by
  have horient : Sense.orient (α := α) .minimize = id := rfl
  have hturn : Sense.turn (α := α) .minimize = id := rfl
  rw [seen, horient, hturn, List.map_id_fun, Option.map_id, Option.map_id, Option.map_id]
  rfl

variable {side}

theorem Evaluation.comparison_seen (e : Evaluation α) (sense : Sense) :
    (e.seen side).comparison (side.facing sense) = (e.comparison sense).map side.orient := by
  obtain ⟨bound, values, interval, exact, gap, count, paths⟩ := e
  rcases interval with _ | ⟨low, high⟩
  · cases exact
    · rcases values with _ | _ | _ <;> rfl
    · rfl
  · cases side <;> cases sense <;> rfl

variable {P P' : Multistage α}

theorem Evaluation.gapOf_seen (hside : side.IsSymmetry α) (hsense : P'.sense = side.facing P.sense)
    (hrisk : P'.riskAverse = P.riskAverse) (e : Evaluation α) :
    (e.seen side).gapOf P' = e.gapOf P := by
  rw [gapOf, gapOf, hrisk, hsense, comparison_seen]
  split_ifs
  · rfl
  cases hb : e.bound with
  | none => simp only [seen, hb, Option.map_none]
  | some b =>
    simp only [seen, hb, Option.map_some, hside.isZero]
    split_ifs
    · rfl
    cases e.comparison P.sense with
    | none => rfl
    | some x => simp only [Option.map_some, hside.gap]

variable [Numeral α]

theorem Evaluation.converged_seen (hside : side.IsSymmetry α) (hrisk : P'.riskAverse = P.riskAverse)
    (e : Evaluation α) (tolerance : Datum α) :
    (e.seen side).converged P' tolerance = e.converged P tolerance := by
  obtain ⟨bound, values, interval, exact, gap, count, paths⟩ := e
  have hwithin (gap' : α) :
      ((⟨bound, values, interval, exact, gap, count, paths⟩ : Evaluation α).seen side).gapWithin
      gap' tolerance =
      (⟨bound, values, interval, exact, gap, count, paths⟩ : Evaluation α).gapWithin gap'
      tolerance := by
    simp only [gapWithin, seen, Option.isSome_map]
  unfold converged
  rw [hrisk]
  simp only [hwithin]
  rcases interval with _ | ⟨low, high⟩
  · rfl
  · cases P.riskAverse with
    | true => rfl
    | false =>
      cases bound with
      | none => rfl
      | some b =>
        have hcovers := hside.covers low high b
        simp only [seen, Option.map_some]
        simp only [hcovers]

theorem Evaluation.intervalOf_seen [Inference α] (hside : side.IsSymmetry α) (xs : List α)
    (percentile : Datum α) :
    intervalOf (xs.map side.orient) percentile = (intervalOf xs percentile).map side.turn := by
  unfold intervalOf
  rw [List.length_map]
  split_ifs
  · rfl
  · cases Statistics.shareOf percentile with
    | error e => rfl
    | ok share => exact hside.interval _ xs share

end

/-! ### Running an evaluation -/

structure Comparison.Appraisals [Scalar α] (C : Comparison α) (x y : Assessment γ α) : Prop where
  evaluation : y.evaluation = x.evaluation.seen C.side
  simulation : C.Simulations x.simulation y.simulation

/-- The same evaluation, at work on problems in relation; its paths are such that both may take. -/
structure Comparison.Assessments [Scalar α] (C : Comparison α) (x y : Assessment γ α) :
    Prop extends C.Appraisals x y where
  paths : ∀ paths, x.evaluation.paths = some paths → ∀ path ∈ paths, C.Along 0 path

namespace Evaluation

variable [Scalar α] {C : Comparison α} {A : β → β → Prop}

theorem onProblem_alike {act act' : Run α (Multistage α) β} (h : Coupled C.related act act' A) :
    Coupled (C.Assessments (γ := γ)) (onProblem act) (onProblem act') A :=
  (Simulation.onProblem_alike h).zoom (fun _ _ hxy => hxy.simulation) fun _ _ _ _ hxy hs =>
    ⟨⟨hxy.evaluation, hs⟩, hxy.paths⟩

theorem record_alike {change change' : Evaluation α → Evaluation α}
    (h : ∀ e, change' (e.seen C.side) = (change e).seen C.side)
    (hpaths : ∀ e, (change e).paths = e.paths) :
    Coupled (C.Assessments (γ := γ)) (record change) (record change') Eq :=
  Coupled.modify fun x y hxy =>
    ⟨⟨by rw [hxy.evaluation, h], hxy.simulation⟩,
      fun paths hp => hxy.paths paths ((hpaths _).symm.trans hp)⟩

theorem values_alike (values : List α) :
    Coupled (C.Assessments (γ := γ)) (record fun e => { e with values := some values })
    (record fun e => { e with values := some (values.map C.side.orient) }) Eq :=
  record_alike (fun _ => rfl) fun _ => rfl

theorem interval_alike (I : α × α) : Coupled (C.Assessments (γ := γ))
    (record fun e => { e with interval := some I })
    (record fun e => { e with interval := some (C.side.turn I) }) Eq :=
  record_alike (fun _ => rfl) fun _ => rfl

theorem exact_alike (x : α) : Coupled (C.Assessments (γ := γ))
    (record fun e => { e with exact := some x })
    (record fun e => { e with exact := some (C.side.orient x) }) Eq :=
  record_alike (fun _ => rfl) fun _ => rfl

variable [Numeral α] {lp lp' : Solver α} (h : C.WalksAlike lp lp')
include h

theorem begin_alike (o : EvaluationPlan α) :
    Coupled (C.Assessments (γ := γ)) (begin o) (begin o) Eq := by
  refine Coupled.get_bind fun x y hxy => ?_
  obtain ⟨hpaths, halong⟩ := h.paths _ _ hxy.simulation.problem
  dsimp only
  rw [hpaths, h.lastBound _ _ hxy.simulation.problem]
  refine Coupled.modify fun x' y' hxy' => ⟨⟨?_, hxy'.simulation⟩, fun paths hp => ?_⟩
  · rw [hxy'.evaluation]
    rfl
  · change (if o.isExhaustive = true then some x.simulation.problem.paths else none) =
      some paths at hp
    split_ifs at hp
    obtain rfl := Option.some.inj hp
    exact halong

variable [Source γ α]

omit h [Numeral α] in
/-- The guide for a job leads both runs the same way, along one of the paths or by chance. -/
theorem guide_guided (hrandom : C.Guided (Guide.random : Guide γ α))
    {paths : Option (List ScenarioPath)}
    (hpaths : ∀ ps, paths = some ps → ∀ path ∈ ps, C.Along 0 path) (job : ℤ) :
    C.Guided (guide paths job : Guide γ α) := by
  cases paths with
  | none => exact hrandom
  | some ps =>
    refine Comparison.Along.guided ?_
    rw [List.getD_eq_getElem?_getD]
    cases hp : ps[job.toNat]? with
    | none => trivial
    | some path => exact hpaths ps rfl path (List.mem_of_getElem? hp)

variable [Inference α] (hrandom : C.Guided (Guide.random : Guide γ α))
include hrandom

omit [Inference α] in
theorem explore_alike (o : EvaluationPlan α) (limit : Option ℕ) :
    Coupled (C.Assessments (γ := γ)) (explore lp o limit) (explore lp' o limit)
      fun r r' => r' = (r.1, r.2.map C.side.orient) ∧
        ∀ paths, r.1 = some paths → ∀ path ∈ paths, C.Along 0 path := by
  have hseed : Coupled (C.Assessments (γ := γ))
      (Run.zoom (fun x => x.simulation.source)
        (fun source x => { x with simulation := { x.simulation with source } })
        (Source.draw Multistage.seedLimit))
      (Run.zoom (fun x => x.simulation.source)
        (fun source x => { x with simulation := { x.simulation with source } })
        (Source.draw Multistage.seedLimit)) Eq :=
    Coupled.refl.zoom (fun _ _ hxy => hxy.simulation.source.symm) fun _ _ _ _ hxy hs =>
      ⟨⟨hxy.evaluation, hxy.simulation.problem, hs.symm⟩, hxy.paths⟩
  refine hseed.bind_same fun seed => Coupled.get_bind fun x y hxy => ?_
  have hcount : y.evaluation.pathCount = x.evaluation.pathCount := by rw [hxy.evaluation]; rfl
  have hpaths : y.evaluation.paths = x.evaluation.paths := by rw [hxy.evaluation]; rfl
  dsimp only
  rw [hcount, hpaths]
  apply (Coupled.ofExcept_eq rfl).bind_same
  intro workers
  have hwalks := h.walkJobs (guide_guided hrandom hxy.paths) seed x.evaluation.pathCount
    workers limit
  apply (onProblem_alike hwalks).bind_map
  intro walks
  refine .pure ⟨Prod.ext rfl ?_, hxy.paths⟩
  change (walks.map _).map Trajectory.value = (walks.map Trajectory.value).map C.side.orient
  rw [List.map_map, List.map_map]
  exact List.map_congr_left fun walk _ => Trajectory.value_seen C.side h.symmetry walk

omit hrandom [Source γ α] in
theorem weigh_alike (o : EvaluationPlan α) {paths : Option (List ScenarioPath)}
    (hpaths : ∀ ps, paths = some ps → ∀ path ∈ ps, C.Along 0 path) (values : List α) :
    Coupled (C.Assessments (γ := γ)) (weigh o paths values)
      (weigh o paths (values.map C.side.orient)) Eq := by
  refine (values_alike _).bind_same fun _ => Coupled.get_bind fun x' y' hxy' => ?_
  have hP := hxy'.simulation.problem
  have hlast : Coupled (C.Assessments (γ := γ))
      (do
        let gap ← Run.ofExcept ((← get).evaluation.gapOf x'.simulation.problem)
        record fun e => { e with gap := some gap })
      (do
        let gap ← Run.ofExcept ((← get).evaluation.gapOf y'.simulation.problem)
        record fun e => { e with gap := some gap }) Eq := by
    refine Coupled.get_bind fun x y hxy => ?_
    rw [hxy.evaluation, gapOf_seen h.symmetry (h.sense _ _ hP) (h.riskAverse _ _ hP)]
    exact (Coupled.ofExcept_eq rfl).bind_same fun gap => record_alike (fun _ => rfl) fun _ => rfl
  have hinterval : Coupled (C.Assessments (γ := γ))
      (do
        if !o.isPlain then
          let interval ← Run.ofExcept (intervalOf values o.percentile)
          record fun e => { e with interval := some interval }
        let gap ← Run.ofExcept ((← get).evaluation.gapOf x'.simulation.problem)
        record fun e => { e with gap := some gap })
      (do
        if !o.isPlain then
          let interval ← Run.ofExcept (intervalOf (values.map C.side.orient) o.percentile)
          record fun e => { e with interval := some interval }
        let gap ← Run.ofExcept ((← get).evaluation.gapOf y'.simulation.problem)
        record fun e => { e with gap := some gap }) Eq := by
    refine .ite ?_ hlast
    rw [intervalOf_seen h.symmetry]
    have hturned : Alike (fun I I' => I' = C.side.turn I) (intervalOf values o.percentile)
        ((intervalOf values o.percentile).map C.side.turn) := by
      cases intervalOf values o.percentile with
      | error e => exact .error e
      | ok I => exact .ok rfl
    exact (Coupled.ofExcept hturned).bind_map fun I => (interval_alike I).bind_same fun _ => hlast
  cases hps : paths with
  | none => exact hinterval
  | some paths =>
    have hweights : paths.mapM x'.simulation.problem.weight =
        paths.mapM y'.simulation.problem.weight := by
      refine mapM_congr fun path hpath => ?_
      exact (h.weight _ _ hP path (hpaths paths hps path hpath)).symm
    refine (Coupled.ofExcept_eq hweights).bind_same fun weights => ?_
    rw [h.symmetry.dot]
    exact (exact_alike _).bind_same fun _ => hinterval

theorem conclude_alike (o : EvaluationPlan α) (limit : Option ℕ) :
    Coupled (C.Assessments (γ := γ)) (conclude lp o limit) (conclude lp' o limit) Eq := by
  apply (explore_alike h hrandom o limit).bind
  rintro ⟨paths, values⟩ _ ⟨rfl, hpaths⟩
  exact weigh_alike h o hpaths values

theorem run_alike (o : EvaluationPlan α) (limit : Option ℕ) :
    Coupled (C.Assessments (γ := γ)) (run lp o limit) (run lp' o limit) Eq := by
  apply (onProblem_alike h.prepare).bind_same
  intro _
  exact (begin_alike h o).bind_same fun _ => conclude_alike h hrandom o limit

/-- What an evaluation does once the problem is prepared. -/
theorem assess_alike (o : EvaluationPlan α) (seed : Datum α) : Coupled (C.Assessments (γ := γ))
    (do
      begin o
      if !seed.isNull then
        let source : γ ← Run.ofExcept (seeded? seed)
        modify fun x => { x with simulation := { x.simulation with source } }
      conclude lp o)
    (do
      begin o
      if !seed.isNull then
        let source : γ ← Run.ofExcept (seeded? seed)
        modify fun x => { x with simulation := { x.simulation with source } }
      conclude lp' o) Eq := by
  refine (begin_alike h o).bind_same fun _ => .ite ?_ (conclude_alike h hrandom o none)
  refine (Coupled.ofExcept_eq rfl).bind_same fun source =>
    Coupled.bind_same (Coupled.modify fun x y hxy => ?_) fun _ =>
    conclude_alike h hrandom o none
  exact ⟨⟨hxy.evaluation, hxy.simulation.problem, rfl⟩, hxy.paths⟩

theorem runSeeded_alike (o : EvaluationPlan α) (seed : Datum α) :
    Coupled (C.Appraisals (γ := γ)) (runSeeded lp o seed) (runSeeded lp' o seed) Eq := by
  have hprepare : Coupled (C.Appraisals (γ := γ)) (onProblem Multistage.prepare)
      (onProblem Multistage.prepare) Eq :=
    (Simulation.onProblem_alike h.prepare).zoom (fun _ _ hxy => hxy.simulation)
      fun _ _ _ _ hxy hs => ⟨hxy.evaluation, hs⟩
  refine hprepare.bind_same fun _ x y hxy => ?_
  -- earlier paths are forgotten before anything is walked
  have hstart : C.Assessments { x with evaluation := { x.evaluation with paths := none } }
      { y with evaluation := { y.evaluation with paths := none } } :=
    ⟨⟨by rw [hxy.evaluation]; rfl, hxy.simulation⟩, nofun⟩
  obtain ⟨hanswer, hend⟩ := assess_alike h hrandom o seed _ _ hstart
  exact ⟨hanswer, hend.toAppraisals⟩

end Evaluation

end Recourse
