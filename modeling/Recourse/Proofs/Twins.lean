import Recourse.Proofs.Comparison.Training
import Recourse.Proofs.Stage.Attachment

/-! Twins: problems with which everything comes to the same. Where two solvers and a relation
between problems agree in each elementary operation, all answers are equal. What the scenario tree
tells is read off the skeleton of a problem, in which the models have lost their rows and their
cuts. -/

namespace Recourse

open Run (Alike Coupled Keeps Triple)

variable {γ α β δ : Type}

/-! ### Skeletons -/

theorem entryFrom_map (f : β → δ) (xs : List β) (i : ℤ) :
    (entryFrom (xs.map f) i : Except (Fault α) δ) = (entryFrom xs i).map f := by
  unfold entryFrom
  rw [List.length_map]
  cases h : resolve i xs.length with
  | none => rfl
  | some j => cases hj : xs[j]? <;> simp [hj] <;> rfl

structure Stage.LeavesScenarios (f : Stage α → Stage α) : Prop where
  sampleCount : ∀ m, (f m).sampleCount = m.sampleCount
  probability : ∀ m, (f m).probability = m.probability

theorem Stage.LeavesScenarios.probabilities [Scalar α] {f : Stage α → Stage α}
    (hf : LeavesScenarios f) (m : Stage α) :
    (f m).probabilities = m.probabilities := by
  rw [Stage.probabilities, Stage.probabilities, hf.sampleCount, hf.probability]

theorem Stage.leavesScenarios_bare : LeavesScenarios (bare : Stage α → Stage α) :=
  ⟨fun _ => rfl, fun _ => rfl⟩

namespace Multistage

def mapModels (f : Stage α → Stage α) (p : Multistage α) : Multistage α :=
  { p with models := p.models.map (List.map f) }

def skeleton (p : Multistage α) : Multistage α :=
  { p with models := p.models.map (List.map Stage.bare) }

theorem eq_of_skeleton (f : Multistage α → β) (hf : ∀ p, f p.skeleton = f p) {P P' : Multistage α}
    (h : P.skeleton = P'.skeleton) : f P = f P' := by rw [← hf P, h, hf P']

section

variable (f : Stage α → Stage α) (p : Multistage α)

theorem model_mapModels (t k : ℤ) : (p.mapModels f).model t k = (p.model t k).map f := by
  unfold model mapModels
  rw [entryFrom_map]
  cases h : (entryFrom p.models t : Except (Fault α) _) with
  | error e => rfl
  | ok ms => exact entryFrom_map _ _ _

theorem locate_mapModels (t k : ℤ) : (p.mapModels f).locate t k = p.locate t k := by
  have hlength (t : ℕ) : ((p.mapModels f).models.getD t []).length =
      (p.models.getD t []).length := by
    simp only [mapModels, List.getD_eq_getElem?_getD, List.getElem?_map]
    cases p.models[t]? with
    | none => rfl
    | some ms => exact List.length_map _
  unfold locate
  simp only [hlength]
  rw [mapModels, List.length_map]

end

theorem model_skeleton (p : Multistage α) (t k : ℤ) :
    p.skeleton.model t k = (p.model t k).map Stage.bare :=
  p.model_mapModels Stage.bare t k

/-! ### The scenario tree -/

variable [Scalar α] {f : Stage α → Stage α} (hf : Stage.LeavesScenarios f) (p : Multistage α)
include hf

theorem drawStage_mapModels [Source γ α] (t : ℕ) (k : ℤ) :
    ((p.mapModels f).drawStage t k : Run α γ _) = p.drawStage t k := by
  unfold drawStage
  refine bind_congr fun j => ?_
  split_ifs
  · rfl
  · rw [model_mapModels]
    cases p.model t j with
    | error e => rfl
    | ok m =>
      have hsample : (drawSample (f m) : Run α γ ℕ) = drawSample m := by
        rw [drawSample, drawSample, hf.sampleCount, hf.probability]
      exact congrArg (fun draw : Run α γ ℕ => draw >>= fun s : ℕ => pure ((j : ℤ), (s : ℤ))) hsample

theorem successors_mapModels (t : ℕ) (k : ℤ) :
    (p.mapModels f).successors t k = p.successors t k := by
  unfold successors
  simp only [mapModels, List.getD_eq_getElem?_getD, List.getElem?_map]
  have hmodels : (p.models[t]?.map (List.map f)).getD [] = (p.models[t]?.getD []).map f := by
    cases p.models[t]? <;> rfl
  rw [hmodels, List.zip_map_right, List.zipIdx_map, List.flatMap_map]
  simp only [Prod.map, id_eq, hf.probabilities]
  rfl

theorem paths_mapModels : (p.mapModels f).paths = p.paths := by
  have hextend (t : ℕ) : (p.mapModels f).extend t = p.extend t := by
    funext path
    rw [extend, extend, successors_mapModels hf]
  unfold paths
  simp only [hextend]
  rfl

theorem weight_mapModels (path : ScenarioPath) : (p.mapModels f).weight path = p.weight path := by
  have hstep (t : ℕ) (previous : Option ℤ) (step : ℤ × ℤ) :
      (p.mapModels f).stepWeight t previous step = p.stepWeight t previous step := by
    unfold stepWeight
    rw [model_mapModels]
    cases p.model t step.1 with
    | error e => rfl
    | ok m => simp only [Except.map, Except.bind, bind, hf.probabilities, mapModels, transition]
  have hfrom (t : ℕ) (previous : Option ℤ) (w : α) :
      (p.mapModels f).weightFrom t previous w path = p.weightFrom t previous w path := by
    induction path generalizing t previous w with
    | nil => rfl
    | cons step path ih =>
      rw [weightFrom, weightFrom, hstep]
      exact bind_congr fun _ => ih _ _ _
  exact hfrom 0 none 1

theorem outcomeProbabilities_mapModels (t j : ℕ) :
    (p.mapModels f).outcomeProbabilities t j = p.outcomeProbabilities t j := by
  unfold outcomeProbabilities
  refine bind_congr fun row => ?_
  have hmodel (k : ℕ) : (do
      let x ← entryAt row k
      let m ← (p.mapModels f).model t k
      return m.probabilities.map (x * ·) : Except (Fault α) _) = do
      let x ← entryAt row k
      let m ← p.model t k
      return m.probabilities.map (x * ·) := by
    rw [model_mapModels]
    refine bind_congr fun x => ?_
    cases p.model t k with
    | error e => rfl
    | ok m =>
      exact congrArg (fun ps => (pure (ps.map (x * ·)) : Except (Fault α) (List α)))
        (hf.probabilities m)
  simp only [hmodel]
  rfl

theorem judge_mapModels (t j : ℕ) (found : Outcomes α) :
    (p.mapModels f).judge t j found = p.judge t j found := by
  unfold judge
  rw [outcomeProbabilities_mapModels hf]
  rfl

omit hf

theorem drawStage_skeleton [Source γ α] (t : ℕ) (k : ℤ) :
    (p.skeleton.drawStage t k : Run α γ _) = p.drawStage t k :=
  drawStage_mapModels Stage.leavesScenarios_bare p t k

theorem paths_skeleton : p.skeleton.paths = p.paths := paths_mapModels Stage.leavesScenarios_bare p

theorem weight_skeleton (path : ScenarioPath) : p.skeleton.weight path = p.weight path :=
  weight_mapModels Stage.leavesScenarios_bare p path

end Multistage

/-! ### Preparation -/

section

variable [Scalar α] [Numeral α]

/-- A problem is prepared once. -/
theorem Multistage.prepare_on_prepared {P : Multistage α} (h : P.prepared = true) :
    prepare.on P = (.ok (), P) := by
  rw [prepare, Run.bind_ok _ (Run.get_on P), if_pos h]
  rfl

theorem Multistage.prepare_prepared :
    Triple (fun _ : Multistage α => True) prepare (fun _ P => P.prepared = true) fun _ => True := by
  refine Triple.get_bind fun P _ => ?_
  split_ifs with h
  · exact Triple.pure fun Q hQ => hQ ▸ h
  · refine Triple.bind (Keeps.true.conseq (fun _ _ => trivial) (fun _ _ h => h) fun _ h => h)
      fun _ => ?_
    refine Triple.bind Keeps.true fun _ => Triple.bind Keeps.true fun _ => ?_
    exact Triple.modify fun _ _ => rfl

end

/-! ### Twins -/

variable {R : Multistage α → Multistage α → Prop}

section

variable [Scalar α] [Numeral α] {lp : Solver α}

namespace Multistage

/-- On problems that a relation holds together, two solvers give the same visits, and the problems
stay together. Only on the first stage nothing comes in. -/
structure WalkTwins (lp lp' : Solver α) (R : Multistage α → Multistage α → Prop) : Prop where
  skeleton : ∀ P P', R P P' → P.skeleton = P'.skeleton
  prepare : Coupled R prepare prepare Eq
  visit : ∀ t k s previous, (previous = none → t = 0) →
    Coupled R (visit lp t k s previous) (visit lp' t k s previous) Eq

/-- On problems that a relation holds together, two solvers give the same answers in all elementary
operations, and the problems stay together. -/
structure Twins (lp lp' : Solver α) (R : Multistage α → Multistage α → Prop) :
    Prop extends WalkTwins lp lp' R where
  bounded : ∀ P P', R P P' → ∀ b, R { P with lastBound := b } { P' with lastBound := b }
  outcomes : ∀ t k state noise,
    Coupled R (outcomes lp t k state noise) (outcomes lp' t k state noise) Eq
  refineAt : ∀ t j found state noise,
    Coupled R (refineAt t j found state noise) (refineAt t j found state noise) Eq
  computeBound : Coupled R (computeBound lp) (computeBound lp') Eq

theorem walkTwins_self {I : Multistage α → Prop} (hprepare : Keeps I prepare)
    (hvisit : ∀ t k s previous, (previous = none → t = 0) → Keeps I (visit lp t k s previous)) :
    WalkTwins lp lp fun P P' => P = P' ∧ I P where
  skeleton := fun _ _ hP => congrArg _ hP.1
  prepare := Coupled.self_iff.mpr hprepare
  visit := fun _ _ _ _ h => Coupled.self_iff.mpr (hvisit _ _ _ _ h)

theorem twins_self {I : Multistage α → Prop} (hbounded : ∀ P b, I P → I { P with lastBound := b })
    (hprepare : Keeps I prepare)
    (hvisit : ∀ t k s previous, (previous = none → t = 0) → Keeps I (visit lp t k s previous))
    (houtcomes : ∀ t k state noise, Keeps I (outcomes lp t k state noise))
    (hrefineAt : ∀ t j found state noise, Keeps I (refineAt t j found state noise))
    (hcomputeBound : Keeps I (computeBound lp)) : Twins lp lp fun P P' => P = P' ∧ I P where
  toWalkTwins := walkTwins_self hprepare hvisit
  bounded := by
    rintro P _ ⟨rfl, hP⟩ b
    exact ⟨rfl, hbounded P b hP⟩
  outcomes := fun _ _ _ _ => Coupled.self_iff.mpr (houtcomes _ _ _ _)
  refineAt := fun _ _ _ _ _ => Coupled.self_iff.mpr (hrefineAt _ _ _ _ _)
  computeBound := Coupled.self_iff.mpr hcomputeBound

theorem twins_self_of_models {I : Multistage α → Prop} (hprepare : Keeps I prepare)
    (hmodels : ∀ P models, I P → I { P with models })
    (hbounded : ∀ P b, I P → I { P with lastBound := b }) (lp : Solver α) :
    Twins lp lp fun P P' => P = P' ∧ I P := by
  have honModel {β : Type} (t k : ℕ) (act : Stage.Edit α β) : Keeps I (onModel t k act) :=
    Keeps.iff_on.mpr fun P hP => hmodels P _ hP
  refine twins_self hbounded hprepare (fun t k s previous _ => ?_)
    (fun t k state noise => honModel t k _)
    (fun t j found state noise => ?_) (honModel 0 0 _)
  · refine .get_bind fun P =>
      .bind .ofExcept fun k => .get_bind fun P => .bind .ofExcept fun place => honModel _ _ _
  · refine .get_bind fun P => .bind .ofExcept fun total => .bind .ofExcept fun m => ?_
    cases m.costToGo with
    | none => exact .throw
    | some ctg => exact .bind .ofExcept fun cut => (honModel _ _ _).bind fun _ => .pure

theorem twins_refl (lp : Solver α) : Twins lp lp Eq := by
  simpa only [and_true] using twins_self (I := fun _ => True) (fun _ _ _ => trivial) .true
    (fun _ _ _ _ _ => .true)
    (fun _ _ _ _ => .true) (fun _ _ _ _ _ => .true) .true

end Multistage

end

structure Simulation.Twin (R : Multistage α → Multistage α → Prop) (x y : Simulation γ α) :
    Prop where
  problem : R x.problem y.problem
  source : x.source = y.source

/-- A guide that looks at the skeleton of a problem only. -/
def Guide.Plain (guide : Guide γ α) : Prop := ∀ p : Multistage α, guide p.skeleton = guide p

theorem Guide.along_plain (path : ScenarioPath) : (Guide.along path : Guide γ α).Plain :=
  fun _ => rfl

theorem Guide.random_plain [Scalar α] [Source γ α] : (Guide.random : Guide γ α).Plain := by
  intro p
  funext t k
  unfold random
  rw [Multistage.drawStage_skeleton]

structure Assessment.Twin (R : Multistage α → Multistage α → Prop) (x y : Assessment γ α) :
    Prop where
  evaluation : x.evaluation = y.evaluation
  simulation : x.simulation.Twin R y.simulation

/-- A session on a problem and one on its twin, with the same source and with records that differ in
the ending at most. The journals may be different. -/
structure Session.Twin (R : Multistage α → Multistage α → Prop) (x y : Session γ α) : Prop where
  simulation : x.simulation.Twin R y.simulation
  record : x.record.open = y.record.open

namespace Session

theorem Twin.iteration {x y : Session γ α} (hxy : Twin R x y) :
    x.record.iteration = y.record.iteration :=
  (congrArg Record.iteration hxy.record :)

theorem Twin.symm {x y : Session γ α} (hxy : Twin Eq x y) : Twin Eq y x :=
  ⟨⟨hxy.simulation.problem.symm, hxy.simulation.source.symm⟩, hxy.record.symm⟩

theorem Twin.eq {x y : Session γ α} (hxy : Twin Eq x y)
    (hending : x.record.ending = y.record.ending) :
    x.simulation = y.simulation ∧ x.record = y.record := by
  obtain ⟨⟨hproblem, hsource⟩, hrecord⟩ := hxy
  refine ⟨?_, ?_⟩
  · rcases x with ⟨⟨_, _⟩, _, _⟩
    rcases y with ⟨⟨_, _⟩, _, _⟩
    exact congrArg₂ Simulation.mk hproblem hsource
  · calc x.record = { x.record.open with ending := x.record.ending } := rfl
      _ = { y.record.open with ending := y.record.ending } := by rw [hrecord, hending]

theorem Twin.trans {x y z : Session γ α} (hxy : Twin Eq x y) (hyz : Twin Eq y z) : Twin Eq x z :=
  ⟨⟨hxy.simulation.problem.trans hyz.simulation.problem,
    hxy.simulation.source.trans hyz.simulation.source⟩,
    hxy.record.trans hyz.record⟩

end Session

/-! ### Twins as a comparison -/

namespace Comparison

/-- The comparison of twins: costs are seen from the same side, and both may go anywhere. -/
def twins (R : Multistage α → Multistage α → Prop) : Comparison α where
  related := R
  side := .minimize
  step := fun _ _ => True
  state := fun _ _ => True

theorem along_twins (t : ℕ) (path : ScenarioPath) : (twins R).Along t path := by
  induction path generalizing t with
  | nil => trivial
  | cons step path ih => exact ⟨trivial, ih (t + 1)⟩

theorem simulations_twins : (twins R).Simulations = Simulation.Twin (γ := γ) R := by
  funext x y
  exact propext ⟨fun h => ⟨h.problem, h.source.symm⟩, fun h => ⟨h.problem, h.source.symm⟩⟩

variable [Scalar α]

theorem appraisals_twins : (twins R).Appraisals = Assessment.Twin (γ := γ) R := by
  funext x y
  refine propext ⟨fun h => ⟨?_, simulations_twins ▸ h.simulation⟩, fun h =>
    ⟨?_, simulations_twins.symm ▸ h.simulation⟩⟩
  · exact (h.evaluation.trans (Evaluation.seen_minimize _)).symm
  · exact h.evaluation.symm.trans (Evaluation.seen_minimize _).symm

theorem sessions_twins : (twins R).Sessions = Session.Twin (γ := γ) R := by
  funext x y
  refine propext ⟨fun h => ⟨simulations_twins ▸ h.simulation, ?_⟩, fun h =>
    ⟨simulations_twins.symm ▸ h.simulation, ?_⟩⟩
  · exact (h.record.trans (Record.seen_minimize _)).symm
  · exact h.record.symm.trans (Record.seen_minimize _).symm

end Comparison

open Comparison (simulations_twins appraisals_twins sessions_twins)

/-- A guide that looks at the skeleton leads twins the same way. -/
theorem Guide.Plain.guided {guide : Guide γ α} (hguide : guide.Plain)
    (hR : ∀ P P', R P P' → P.skeleton = P'.skeleton) :
    (Comparison.twins R).Guided guide := by
  intro P P' hP t j _
  rw [Multistage.eq_of_skeleton guide hguide (hR P P' hP)]
  exact Coupled.refl.mono fun _ _ h => ⟨h.symm, trivial⟩

section

variable [Scalar α] [Numeral α] {lp lp' : Solver α}

open Multistage (eq_of_skeleton)

theorem Multistage.WalkTwins.walksAlike (h : WalkTwins lp lp' R) :
    (Comparison.twins R).WalksAlike lp lp' where
  symmetry := Sense.isSymmetry_minimize
  prepare := h.prepare
  visit := fun t k s previous hprevious _ => by
    have hseen : previous.map (Visit.seen .minimize) = previous := by cases previous <;> rfl
    have hfirst : previous = none → t = 0 := by
      rintro rfl
      cases t with
      | zero => rfl
      | succ t => simp [Comparison.Arrived] at hprevious
    exact hseen.symm ▸ (h.visit t k s previous hfirst).mono fun _ _ hv => hv.symm
  horizon := fun _ _ hP => (eq_of_skeleton horizon (fun _ => rfl) (h.skeleton _ _ hP)).symm
  sense := fun _ _ hP => (eq_of_skeleton sense (fun _ => rfl) (h.skeleton _ _ hP)).symm
  riskAverse := fun _ _ hP => (eq_of_skeleton riskAverse (fun _ => rfl) (h.skeleton _ _ hP)).symm
  lastBound := fun P P' hP => by
    have hbound := eq_of_skeleton lastBound (fun _ => rfl) (h.skeleton _ _ hP)
    have hseen : P.lastBound.map (Sense.orient .minimize) = P.lastBound := Option.map_id'
    exact hbound.symm.trans hseen.symm
  paths := fun _ _ hP => ⟨(eq_of_skeleton paths paths_skeleton (h.skeleton _ _ hP)).symm,
    fun path _ => Comparison.along_twins 0 path⟩
  weight := fun _ _ hP path _ =>
  (eq_of_skeleton (weight · path) (weight_skeleton · path) (h.skeleton _ _ hP)).symm

theorem Multistage.Twins.worksAlike (h : Twins lp lp' R) :
    (Comparison.twins R).WorksAlike lp lp' where
  toWalksAlike := h.walksAlike
  bounded := fun P P' hP b => by
    have hseen : b.map (Sense.orient .minimize) = b := Option.map_id'
    exact hseen.symm ▸ h.bounded P P' hP b
  reachable := fun _ _ hP t =>
    ⟨(eq_of_skeleton (reachableStates · t) (fun _ => rfl) (h.skeleton _ _ hP)).symm,
      fun _ _ => trivial⟩
  outcomes := fun t k state noise _ => (h.outcomes t k state noise).mono fun found _ hfound =>
    hfound.symm.trans found.seen_minimize.symm
  refineAt := fun t j found state noise _ => by
    have hseen : found.seen (Comparison.twins R).side = found := found.seen_minimize
    exact hseen.symm ▸ h.refineAt t j found state noise
  computeBound := h.computeBound.mono fun _ _ hb => hb.symm

namespace Multistage

theorem WalkTwins.walk (h : WalkTwins lp lp' R) {guide : Guide γ α} (hguide : guide.Plain) :
    Coupled (Simulation.Twin R) (walk lp guide) (walk lp' guide) Eq := by
  rw [← simulations_twins]
  refine (h.walksAlike.walk (hguide.guided h.skeleton)).mono fun x x' hx => ?_
  have hseen : x.map (Visit.seen .minimize) = x := List.map_id x
  exact (hx.1.trans hseen).symm

theorem WalkTwins.walkJobs [Source γ α] (h : WalkTwins lp lp' R) {guide : ℤ → Guide γ α}
    (hguide : ∀ job, (guide job).Plain) (seed : ℕ) (jobs workers : Datum α) (limit : Option ℕ) :
    Coupled R (walkJobs lp guide seed jobs workers limit)
      (walkJobs lp' guide seed jobs workers limit) Eq := by
  have hguided (job : ℤ) := (hguide job).guided h.skeleton
  refine (h.walksAlike.walkJobs hguided seed jobs workers limit).mono fun xs xs' hxs => ?_
  have hseen : xs.map (List.map (Visit.seen .minimize)) = xs := by
    have hid : List.map (Visit.seen (α := α) .minimize) = id := List.map_id_fun
    rw [hid, List.map_id]
  exact (hxs.trans hseen).symm

theorem Twins.refine (h : Twins lp lp' R) (states : List (List α))
    (noises : List (Option (List α))) :
    Coupled R (refine lp states noises) (refine lp' states noises) Eq :=
  h.worksAlike.refine states noises

theorem Twins.refineAlong (h : Twins lp lp' R) (x : Trajectory α) :
    Coupled R (refineAlong lp x) (refineAlong lp' x) Eq :=
  h.refine _ _

theorem Twins.refineAll (h : Twins lp lp' R) (walks : List (Trajectory α)) (limit : Option ℕ) :
    Coupled R (refineAll lp walks limit) (refineAll lp' walks limit) Eq :=
  (Coupled.forM fun walk _ => h.refineAlong walk).bind_same fun _ => .breakOff

end Multistage

theorem Evaluation.runSeeded_coupled [Source γ α] [Inference α] (h : Multistage.WalkTwins lp lp' R)
    (o : EvaluationPlan α)
    (seed : Datum α) : Coupled (Assessment.Twin (γ := γ) R) (runSeeded lp o seed)
    (runSeeded lp' o seed) Eq := by
  rw [← appraisals_twins]
  exact runSeeded_alike h.walksAlike (Guide.random_plain.guided h.skeleton) o seed

/-- An evaluation keeps of the problem what visits keep. -/
theorem Evaluation.runSeeded_keeps_of [Source γ α] [Inference α] {I : Multistage α → Prop}
    (h : Multistage.WalkTwins lp lp fun P P' => P = P' ∧ I P) (o : EvaluationPlan α)
    (seed : Datum α) :
    Keeps (fun x : Assessment γ α => I x.simulation.problem) (runSeeded lp o seed) :=
  Keeps.iff_on.mpr fun x hx =>
    (runSeeded_coupled h o seed x x ⟨rfl, ⟨rfl, hx⟩, rfl⟩).2.simulation.problem.2

namespace Session

variable [Source γ α]

theorem improve_keeps_of {I : Multistage α → Prop}
    (h : Multistage.Twins lp lp fun P P' => P = P' ∧ I P) (o : TrainingPlan α) (signal : Signal) :
    Keeps (fun x : Session γ α => I x.simulation.problem) (improve lp o signal) := by
  refine Keeps.iff_on.mpr fun x hx => ?_
  have hself : (Comparison.twins fun P P' : Multistage α => P = P' ∧ I P).Sessions x x := by
    rw [sessions_twins]
    exact ⟨⟨⟨rfl, hx⟩, rfl⟩, rfl⟩
  exact (improve_alike h.worksAlike (Guide.random_plain.guided h.skeleton)
    (rfl : o.steps = o.steps) signal x x
    hself).2.simulation.problem.2

variable [Inference α]

theorem evaluate_keeps_of {I : Multistage α → Prop}
    (h : Multistage.WalkTwins lp lp fun P P' => P = P' ∧ I P) (o : EvaluationPlan α)
    (limit : Option ℕ) :
    Keeps (fun x : Session γ α => I x.simulation.problem) (evaluate lp o limit) := by
  refine Keeps.iff_on.mpr fun x hx => ?_
  have hself : (Comparison.twins fun P P' : Multistage α => P = P' ∧ I P).Sessions x x := by
    rw [sessions_twins]
    exact ⟨⟨⟨rfl, hx⟩, rfl⟩, rfl⟩
  exact (evaluate_alike (Guide.random_plain.guided h.skeleton) h.walksAlike o limit x x
    hself).2.simulation.problem.2

variable (h : Multistage.Twins lp lp' R) {o o' : TrainingPlan α} {g g' : Standing α}
include h

theorem count_coupled (hcore : o.core = o'.core) (hg : g.previous = g'.previous) (signal : Signal) :
    Coupled (Twin (γ := γ) R) (count lp o g signal) (count lp' o' g' signal)
      (Standing.CountedAlike .minimize o o' g g') := by
  rw [← sessions_twins]
  have hprevious := hg.symm.trans Option.map_id'.symm
  exact count_alike h.worksAlike (Guide.random_plain.guided h.skeleton) hcore hprevious signal

theorem review_coupled (hcore : o.core = o'.core) (g g' : Standing α) (bound : α)
    (signal : Signal) :
    Coupled (Twin (γ := γ) R) (review lp o bound g signal) (review lp' o' bound g' signal)
      (Standing.ReviewedAlike o o' g g') := by
  rw [← sessions_twins]
  exact review_alike h.worksAlike
    (Guide.random_plain.guided h.skeleton) hcore g g' bound bound signal

omit [Source γ α] [Inference α] in
theorem outset_coupled (hcore : o.core = o'.core) :
    Coupled (Twin (γ := γ) R) (outset o) (outset o') Eq := by
  rw [← sessions_twins]
  refine (outset_alike h.worksAlike hcore).mono ?_
  rintro _ _ ⟨r, r', hr, rfl, rfl⟩
  have hbounds : r'.bounds = r.bounds := hr.trans (List.map_id _)
  rw [Standing.start, Standing.start, hbounds]

theorem trainSeeded_coupled (o : TrainingPlan α) (seed : Datum α) :
    Coupled (Twin (γ := γ) R) (trainSeeded lp o seed) (trainSeeded lp' o seed) Eq := by
  rw [← sessions_twins]
  exact trainSeeded_alike h.worksAlike (Guide.random_plain.guided h.skeleton) (.refl o) seed

end Session

end

end Recourse
