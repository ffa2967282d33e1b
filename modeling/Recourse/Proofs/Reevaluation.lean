import Recourse.Proofs.Exhaustive
import Recourse.Proofs.Multistage.Tally
import Recourse.Proofs.Multistage.Writing

/-! Evaluations that are run again. A run that returns has written all results anew, so they do not
depend on what the runs before it have found or where they failed; and no run touches the cuts, so
they do not depend on how many there were. What such a run finds is what a new evaluation would have
found that made this run only. -/

namespace Recourse

open Run (Alike Coupled Keeps Triple)
open Multistage (prepare setMeasure setTail Use)

variable {γ α β : Type}

/-! ### One run -/

namespace Evaluation

/-- The same work with evaluations that differ in the values at most. -/
structure SameButValues (x y : Assessment γ α) : Prop where
  evaluation : { x.evaluation with values := none } = { y.evaluation with values := none }
  simulation : x.simulation = y.simulation

variable [Scalar α] [Numeral α] [Source γ α]

def search (lp : Solver α) (o : EvaluationPlan α) (seed : Datum α) :
    Run α (Assessment γ α) (Option (List ScenarioPath) × List α) := do
  if !seed.isNull then
    let source : γ ← Run.ofExcept (seeded? seed)
    modify fun x => { x with simulation := { x.simulation with source } }
  explore lp o

variable [Inference α] {lp : Solver α} {o : EvaluationPlan α} {seed : Datum α}
  {x x' y : Assessment γ α}

theorem runSeeded_eq (lp : Solver α) (o : EvaluationPlan α) (seed : Datum α) :
    (runSeeded lp o seed : Run α (Assessment γ α) Unit) =
      (do
        onProblem prepare
        begin o
        let (paths, values) ← search lp o seed
        weigh o paths values) := by
  unfold runSeeded search conclude
  cases seed.isNull <;> simp only [Bool.not_true, Bool.not_false, if_true, Bool.false_eq_true,
    if_false, bind_assoc]

omit [Inference α] in
theorem explore_coupled (lp : Solver α) (o : EvaluationPlan α) :
    Coupled (SameButValues (γ := γ)) (explore lp o) (explore lp o) Eq := by
  refine Coupled.bind_same (Coupled.refl.zoom (fun _ _ h => congrArg Simulation.source h.simulation)
    fun _ _ _ _ h hsource => ⟨h.evaluation, ?_⟩) fun seed => Coupled.get_bind fun x y hxy => ?_
  · rw [h.simulation, hsource]
  have hpaths : x.evaluation.paths = y.evaluation.paths :=
    (congrArg Evaluation.paths hxy.evaluation :)
  have hcount : x.evaluation.pathCount = y.evaluation.pathCount :=
    (congrArg Evaluation.pathCount hxy.evaluation :)
  dsimp only
  rw [hpaths, hcount]
  refine (Coupled.ofExcept_eq rfl).bind_same fun workers =>
    Coupled.bind_same ?_ fun walks => Coupled.pure rfl
  exact Coupled.refl.zoom (fun _ _ h => h.simulation) fun _ _ _ _ h hsimulation =>
    ⟨h.evaluation, hsimulation⟩

omit [Inference α] in
theorem search_coupled (lp : Solver α) (o : EvaluationPlan α) (seed : Datum α) :
    Coupled (SameButValues (γ := γ)) (search lp o seed) (search lp o seed) Eq := by
  refine Coupled.ite ((Coupled.ofExcept_eq rfl).bind_same fun source => ?_) (explore_coupled lp o)
  exact (Coupled.modify fun _ _ h => ⟨h.evaluation, by rw [h.simulation]⟩).bind_same fun _ =>
    explore_coupled lp o

omit [Scalar α] [Numeral α] [Source γ α] [Inference α] in
theorem record_on (change : Evaluation α → Evaluation α) (x : Assessment γ α) :
    (record change).on x = (.ok (), { x with evaluation := change x.evaluation }) := rfl

omit [Source γ α] in
/-- The values are recorded before anything is concluded from them. -/
theorem weigh_on (h : SameButValues x y) (paths : Option (List ScenarioPath)) (values : List α) :
    (weigh o paths values).on x = (weigh o paths values).on y := by
  have hvalues : { x.evaluation with values := some values } =
      { y.evaluation with values := some values } :=
    congrArg (fun e : Evaluation α => { e with values := some values }) h.evaluation
  have hstate : { x with evaluation := { x.evaluation with values := some values } } =
      { y with evaluation := { y.evaluation with values := some values } } :=
    congrArg₂ Assessment.mk hvalues h.simulation
  rw [weigh, Run.bind_ok _ (record_on _ x), Run.bind_ok _ (record_on _ y), hstate]

omit [Source γ α] [Inference α] in
/-- Of earlier results nothing but the values is left. -/
theorem exists_begin (o : EvaluationPlan α) (h : x.simulation = y.simulation) :
    ∃ x' y', (begin o).on x = (.ok (), x') ∧ (begin o).on y = (.ok (), y') ∧
      SameButValues x' y' := by
  refine ⟨_, _, rfl, rfl, ?_, h⟩
  simp only [h]

/-- What a run leaves that returns does not depend on what the evaluation was before. -/
theorem runSeeded_of_ok (hxy : x.simulation = y.simulation)
    (h : (runSeeded lp o seed).on x = (.ok (), x')) :
    (runSeeded lp o seed).on y = (.ok (), x') := by
  rw [runSeeded_eq] at h ⊢
  obtain ⟨_, x₁, hprepare, h⟩ := Run.exists_of_bind h
  have hcoupled : Coupled (fun x y : Assessment γ α => x.simulation = y.simulation)
      (onProblem prepare)
      (onProblem prepare) Eq :=
    Coupled.refl.zoom (fun _ _ h => h) fun _ _ _ _ _ h => h
  obtain ⟨_, y₁, hprepare', -, hxy₁⟩ := hcoupled.of_ok hxy hprepare
  obtain ⟨x₂, y₂, hx₂, hy₂, hxy₂⟩ := exists_begin o hxy₁
  rw [Run.bind_ok _ hx₂] at h
  rw [Run.bind_ok _ hprepare', Run.bind_ok _ hy₂]
  obtain ⟨⟨paths, values⟩, x₃, hsearch, h⟩ := Run.exists_of_bind h
  obtain ⟨_, y₃, hsearch', rfl, hxy₃⟩ := (search_coupled lp o seed).of_ok hxy₂ hsearch
  rw [Run.bind_ok _ hsearch', ← weigh_on hxy₃]
  exact h

theorem runSeeded_prepared {P : Multistage α} (h : prepare.on x.simulation.problem = (.ok (), P)) :
    (runSeeded lp o seed).on x =
      (runSeeded lp o seed).on { x with simulation := { x.simulation with problem := P } } := by
  have hprepared : P.prepared = true := (Multistage.prepare_prepared _ trivial).1 () P h
  have hrun (y : Assessment γ α) (hy : prepare.on y.simulation.problem = (.ok (), P)) :
      (onProblem prepare).on y = (.ok (),
      { y with simulation := { y.simulation with problem := P } }) :=
    congrArg (fun r : Except (Fault α) Unit × Multistage α =>
      (r.1, { y with simulation := { y.simulation with problem := r.2 } })) hy
  rw [runSeeded, Run.bind_ok _ (hrun x h),
    Run.bind_ok _ (hrun _ (Multistage.prepare_on_prepared hprepared))]

end Evaluation

/-! ### Cuts and bounds -/

namespace Multistage

variable [Scalar α] {P P' Q : Multistage α} {t k : ℕ}

/-- A pool that is there stays as it is, and where there is none there may be a new one. -/
inductive Spared : Option (Pool α) → Option (Pool α) → Prop
  | same (pool : Option (Pool α)) : Spared pool pool
  | new (sense : Sense) (box : Box α) (pruning : Bool) :
    Spared none (some (Pool.empty sense box pruning))

structure Retains (P Q : Multistage α) : Prop where
  bound : Q.lastBound = P.lastBound
  pools : ∀ t k, Spared (P.poolAt t k) (Q.poolAt t k)

theorem Retains.refl (P : Multistage α) : P.Retains P := ⟨rfl, fun _ _ => .same _⟩

theorem onModel_retains {act : Stage.Edit α β}
    (h : ∀ pool, Keeps (fun m : Stage α => Spared pool m.pool?) act) :
    Keeps P.Retains (onModel t k act) := by
  refine Keeps.iff_on.mpr fun Q hQ => ?_
  rcases hm : Q.stageAt t k with _ | m
  · rwa [onModel_on_none hm]
  · rw [onModel_on_some hm]
    refine ⟨hQ.bound, fun t' k' => ?_⟩
    rw [poolAt_put hm]
    split_ifs with hsame
    · obtain ⟨rfl, rfl⟩ := hsame
      have hpool : Q.poolAt t' k' = m.pool? := by rw [poolAt, hm, Option.bind_some]
      exact Keeps.iff_on.mp (h _) m (hpool ▸ hQ.pools t' k')
    · exact hQ.pools t' k'

theorem equip_spared (terms : Except (Fault α) (α × Limit α)) (sense : Sense)
    (pruning lagged : Bool) (pool : Option (Pool α)) :
    Keeps (fun m : Stage α => Spared pool m.pool?)
      (do Stage.setUpCostToGo terms; Stage.setUpPool sense pruning lagged) := by
  refine (Stage.setUpCostToGo_keeps (fun _ _ _ _ _ hm => hm) terms).bind fun _ =>
    Keeps.iff_on.mpr fun m hm => ?_
  simp only [Run.on, Stage.setUpPool]
  rcases hctg : m.costToGo with _ | ctg
  · rw [Stage.pool?, hctg] at hm
    cases hm
    exact .new _ _ _
  · exact hm

variable [Numeral α]

theorem prepare_retains : Keeps P.Retains prepare :=
  prepare_keeps_of (fun _ _ _ _ _ _ => onModel_retains (equip_spared _ _ _ _))
    (fun _ _ _ => onModel_retains fun _ => Stage.setUpLinks_invariant (fun _ _ _ _ _ hm => hm)
    (fun _ _ _ _ hm => hm) _)
    fun _ hP => ⟨hP.bound, hP.pools⟩

theorem walkTwins_retains (lp : Solver α) (P₀ : Multistage α) :
    WalkTwins lp lp fun P P' => P = P' ∧ P₀.Retains P := by
  refine walkTwins_self prepare_retains fun t k s previous _ =>
    visit_keeps_of fun _ _ discount => ?_
  refine onModel_retains fun pool => Keeps.iff_on.mpr fun m hm => ?_
  rwa [Stage.pool?_of_steady fun J hJ => hJ.follow lp discount t k s _]

/-! ### Problems at work -/

variable {P₀ : Multistage α}

/-- What is done with a prepared problem: it is used, or its measures are changed. -/
inductive Handling : Multistage α → Multistage α → Prop
  | use {P P' : Multistage α} (h : Use P P') : Handling P P'
  | measure (choice : Preference α) (stages : Datum α) (P : Multistage α) :
    Handling P ((setMeasure choice stages).on P).2
  | tail (weight level : Datum α) (P : Multistage α) : Handling P ((setTail weight level).on P).2

/-- A problem that can be prepared, or one that was prepared and that is at work. -/
inductive Serviceable : Multistage α → Prop
  | written {p P₀ : Multistage α} (hp : p.Settled) (hprepare : prepare.on p = (.ok (), P₀)) :
    Serviceable p
  | handled {p P₀ P : Multistage α} (hp : p.Settled) (hprepare : prepare.on p = (.ok (), P₀))
    (hhandling : Relation.ReflTransGen Handling P₀ P) : Serviceable P

omit [Scalar α] [Numeral α] in
theorem Fresh.withMeasures (h : P₀.Fresh) (measures : List (Preference α)) (riskAverse : Bool) :
    Fresh { P₀ with measures, riskAverse } := ⟨⟨h.models, h.first⟩, h.prepared⟩

theorem Kept.withMeasures (h : P₀.Kept P) (measures : List (Preference α)) (riskAverse : Bool) :
    Kept { P₀ with measures, riskAverse } { P with measures, riskAverse } :=
  ⟨(congrArg (fun P : Multistage α => { P with measures, riskAverse }) h.frame :), h.models⟩

/-- Whatever is done with a prepared problem, it has become of a fresh one by work. -/
theorem exists_fresh_of_handling (hP₀ : P₀.Fresh) (h : Relation.ReflTransGen Handling P₀ P) :
    ∃ P₁ : Multistage α, P₁.Fresh ∧ P₁.Kept P := by
  have hmeasures (P : Multistage α) (measures : List (Preference α)) (riskAverse : Bool) :
      (∃ P₁ : Multistage α, P₁.Fresh ∧ P₁.Kept P) →
        ∃ P₁ : Multistage α, P₁.Fresh ∧ P₁.Kept { P with measures, riskAverse } := by
    rintro ⟨P₁, hP₁, hkept⟩
    exact ⟨_, hP₁.withMeasures measures riskAverse, hkept.withMeasures measures riskAverse⟩
  induction h with
  | refl => exact ⟨P₀, hP₀, hP₀.toSettled.kept⟩
  | tail _ hstep ih =>
    cases hstep with
    | use huse =>
      obtain ⟨P₁, hP₁, hkept⟩ := ih
      exact ⟨P₁, hP₁, hP₁.keeps_use hkept huse⟩
    | measure choice stages => exact Keeps.iff_on.mp (setMeasure_keeps hmeasures choice stages) _ ih
    | tail weight level => exact Keeps.iff_on.mp (setTail_keeps hmeasures weight level) _ ih

def Leads (P₀ P₁ P : Multistage α) : Prop := ∃ P₂, prepare.on P = (.ok (), P₂) ∧ P₀.SameCuts P₂ P₁

theorem Serviceable.exists_leads (h : P.Serviceable) :
    ∃ P₀ P₁ : Multistage α, P₀.Fresh ∧ P₀.Leads P₁ P := by
  cases h with
  | @written _ P₀ hp hprepare =>
    have hP₀ := hp.fresh hprepare
    exact ⟨P₀, P₀, hP₀, P₀, hprepare, hP₀.toSettled.kept.sameCuts⟩
  | handled hp hprepare hhandling =>
    obtain ⟨P₁, hP₁, hkept⟩ := exists_fresh_of_handling (hp.fresh hprepare) hhandling
    exact ⟨P₁, P, hP₁, P, hkept.prepare_on hP₁, hkept.sameCuts⟩

end Multistage

/-! ### One run after another -/

namespace Evaluation

structure Trial (γ α : Type) where
  lp : Solver α
  plan : EvaluationPlan α
  seed : Datum α
  source : γ

variable [Scalar α] [Numeral α] [Source γ α] [Inference α]

def Trial.on (trial : Trial γ α) (x : Assessment γ α) : Except (Fault α) Unit × Assessment γ α :=
  (runSeeded trial.lp trial.plan trial.seed).on
    { x with simulation := { x.simulation with source := trial.source } }

def attempt (trials : List (Trial γ α)) (x : Assessment γ α) : Assessment γ α :=
  trials.foldl (fun x trial => (trial.on x).2) x

variable {P₀ P₁ : Multistage α} {trial : Trial γ α} {x y z : Assessment γ α}

theorem attempt_keeps {I : Multistage α → Prop}
    (hI : ∀ (trial : Trial γ α) x, I x.simulation.problem →
    I (trial.on x).2.simulation.problem) (trials : List (Trial γ α)) (hx : I x.simulation.problem) :
    I (attempt trials x).simulation.problem := by
  induction trials generalizing x with
  | nil => exact hx
  | cons trial trials ih => exact ih (hI trial x hx)

theorem attempt_retains (trials : List (Trial γ α)) (x : Assessment γ α) :
    x.simulation.problem.Retains (attempt trials x).simulation.problem :=
  attempt_keeps (fun trial _ hx => Keeps.iff_on.mp
    (runSeeded_keeps_of (Multistage.walkTwins_retains trial.lp x.simulation.problem) trial.plan
    trial.seed) _ hx) trials (.refl _)

theorem Trial.on_prepared {P : Multistage α} (h : prepare.on x.simulation.problem = (.ok (), P)) :
    trial.on x = trial.on { x with simulation := { x.simulation with problem := P } } :=
  runSeeded_prepared h

theorem Trial.on_of_ok (h : trial.on x = (.ok (), z))
    (hxy : x.simulation.problem = y.simulation.problem) :
    trial.on y = (.ok (), z) :=
  runSeeded_of_ok (congrArg (Simulation.mk · trial.source) hxy) h

theorem attempt_leads (hP₀ : P₀.Fresh) (trials : List (Trial γ α))
    (hx : P₀.Leads P₁ x.simulation.problem) :
    P₀.Leads P₁ (attempt trials x).simulation.problem := by
  refine attempt_keeps (fun trial x hx => ?_) trials hx
  obtain ⟨P, hprepare, hsame⟩ := hx
  have hkeeps := runSeeded_keeps_of (γ := γ)
    (Multistage.walkTwins_sameCuts hP₀ trial.lp P₁) trial.plan trial.seed
  rw [Trial.on_prepared hprepare]
  have hsame := Keeps.iff_on.mp hkeeps
    { x with simulation := { problem := P, source := trial.source } } hsame
  exact ⟨_, hsame.left.prepare_on hP₀, hsame⟩

omit [Source γ α] [Inference α] in
theorem converged_of_skeleton {P P' : Multistage α} (h : P.skeleton = P'.skeleton)
    (e : Evaluation α) (tolerance : Datum α) :
    e.converged P tolerance = e.converged P' tolerance :=
  Multistage.eq_of_skeleton (fun P => e.converged P tolerance) (fun _ => rfl) h

/-- A run that returns does so on another problem with the same cuts, and finds the same. -/
theorem Trial.on_leads (hP₀ : P₀.Fresh) (hlp : trial.lp.Blind)
    (hx : P₀.Leads P₁ x.simulation.problem) (hy : P₀.Leads P₁ y.simulation.problem)
    (h : trial.on x = (.ok (), z)) :
    ∃ z', trial.on y = (.ok (), z') ∧ z'.evaluation = z.evaluation ∧
      z'.simulation.problem.skeleton = z.simulation.problem.skeleton := by
  obtain ⟨P, hP, hPsame⟩ := hx
  obtain ⟨Q, hQ, hQsame⟩ := hy
  have hsame : P₀.SameCuts P Q :=
    ⟨hPsame.left, hQsame.left, fun t k => (hPsame.pool t k).trans (hQsame.pool t k).symm,
      hPsame.skeleton.trans hQsame.skeleton.symm⟩
  rw [Trial.on_prepared hP] at h
  rw [Trial.on_prepared hQ]
  have hcoupled := runSeeded_coupled (γ := γ)
    (Multistage.twins_sameCuts hP₀ hlp).toWalkTwins trial.plan trial.seed
  have hrun : (runSeeded trial.lp trial.plan trial.seed).on
      ⟨y.evaluation, ⟨P, trial.source⟩⟩ = (.ok (), z) :=
    Trial.on_of_ok (y := ⟨y.evaluation, ⟨P, trial.source⟩⟩) h rfl
  have hstart : Assessment.Twin P₀.SameCuts ⟨y.evaluation, ⟨P, trial.source⟩⟩
      ⟨y.evaluation, ⟨Q, trial.source⟩⟩ :=
    ⟨rfl, ⟨hsame, rfl⟩⟩
  obtain ⟨_, z', hrun', -, htwin⟩ := hcoupled.of_ok hstart hrun
  exact ⟨z', hrun', htwin.evaluation.symm, htwin.simulation.problem.skeleton.symm⟩

/-- Whatever runs an evaluation has made, and however they ended, the bound and the cuts are as
before; and what a further run finds that returns is what it finds in a new evaluation, of the
problem as it is then or as it was before all runs. -/
theorem rerun_as_new (trials : List (Trial γ α)) (x : Assessment γ α) :
    x.simulation.problem.Retains (attempt trials x).simulation.problem ∧
      ∀ (last : Trial γ α) (z : Assessment γ α), last.on (attempt trials x) = (.ok (), z) →
        ∀ Q : Multistage α, (Q = (attempt trials x).simulation.problem ∨
            Q = x.simulation.problem ∧ Q.Serviceable ∧ last.lp.Blind) →
          ∃ z' : Assessment γ α, last.on ⟨new Q, ⟨Q, last.source⟩⟩ = (.ok (), z') ∧
            z'.evaluation = z.evaluation ∧
            ∀ tolerance, z'.evaluation.converged z'.simulation.problem tolerance =
              z.evaluation.converged z.simulation.problem tolerance := by
  refine ⟨attempt_retains trials x, fun last z h Q hQ => ?_⟩
  rcases hQ with rfl | ⟨rfl, hserviceable, hlp⟩
  · exact ⟨z, Trial.on_of_ok h rfl, rfl, fun _ => rfl⟩
  · obtain ⟨P₀, P₁, hP₀, hleads⟩ := hserviceable.exists_leads
    obtain ⟨z', hrun, hevaluation, hskeleton⟩ :=
      Trial.on_leads (y := ⟨new _, ⟨_, last.source⟩⟩) hP₀ hlp
      (attempt_leads hP₀ trials hleads) hleads h
    exact ⟨z', hrun, hevaluation,
      fun tolerance => hevaluation ▸ converged_of_skeleton hskeleton _ tolerance⟩

end Evaluation

/-! ### A single walk after others -/

namespace Problems

def shortageTrial (lp : Solver ℚ) (simulations : ℤ) (source : ℕ) : Evaluation.Trial ℕ ℚ :=
  { lp, plan := { simulations := .int simulations }, seed := .null, source }

def shortageUntried : Assessment ℕ ℚ := ⟨Evaluation.new shortageOnce, ⟨shortageOnce, 0⟩⟩

/-- A run that fails at its first program, and then three walks. -/
def shortageTried : Assessment ℕ ℚ :=
  Evaluation.attempt [shortageTrial (fun _ => .gaveUp) (-1) 0,
    shortageTrial stockOptimum 3 1] shortageUntried

end Problems

open Problems in
theorem Evaluation.rerun_as_new_shortage :
    ((shortageTrial (fun _ => .gaveUp) (-1) 0).on shortageUntried).1.isOk = false ∧
    shortageTried.evaluation.interval = some (1, 1) ∧
    shortageOnce.Retains shortageTried.simulation.problem ∧
    ∃ z, (shortageTrial stockOptimum 1 2).on shortageTried = (.ok (), z) ∧
      z.evaluation.gap = some 1 ∧
      ∃ z', (shortageTrial stockOptimum 1 2).on
        ⟨new shortageOnce, ⟨shortageOnce, 2⟩⟩ = (.ok (), z') ∧
        z'.evaluation = z.evaluation ∧ ∀ tolerance,
        z'.evaluation.converged z'.simulation.problem tolerance =
          z.evaluation.converged z.simulation.problem tolerance := by
  have hserviceable : shortageOnce.Serviceable := .handled shortage_settled shortage_prepared
    (.single (.use (.work (.train stockOptimum
    { shortagePlan with maxIterations := .int 1 } .null shortageReady))))
  have hrun : (shortageTrial stockOptimum 1 2).on shortageTried =
      (.ok (), ((shortageTrial stockOptimum 1 2).on shortageTried).2) :=
      Run.on_of_isOk (by decide +kernel)
  obtain ⟨hretains, hnew⟩ := rerun_as_new
    [shortageTrial (fun _ => .gaveUp) (-1) 0, shortageTrial stockOptimum 3 1] shortageUntried
  exact ⟨by decide +kernel, by decide +kernel, hretains, _, hrun, by decide +kernel,
    hnew _ _ hrun _ (.inr ⟨rfl, hserviceable, stockOptimum_blind⟩)⟩

end Recourse
