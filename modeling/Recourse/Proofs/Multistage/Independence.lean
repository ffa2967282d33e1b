import Recourse.Proofs.Multistage.Settling
import Recourse.Proofs.Multistage.Work
import Recourse.Proofs.Resumption

/-! No solve depends on what was solved before. Whatever work was done on a problem, and wherever it
failed, each solve gets the program that belongs to the present call and to the cuts stored by then.
So evaluations may be put anywhere between the calls that train: they leave no trace in what is
trained. -/

namespace Recourse

open Run (Alike Coupled Keeps Triple)

variable {γ α β : Type} [Scalar α] [Numeral α]

namespace Multistage

variable {P₀ P P' : Multistage α} {t k : ℕ} {m M : Stage α} {lp : Solver α}

/-! ### What all work keeps -/

theorem Kept.prepare_on (h : P₀.Kept P) (hP₀ : P₀.Fresh) : prepare.on P = (.ok (), P) :=
  prepare_on_prepared ((h.same prepared fun _ _ _ => rfl).trans hP₀.prepared)

theorem Kept.withBound (h : P₀.Kept P) (b : Option α) : P₀.Kept { P with lastBound := b } :=
  ⟨h.frame, h.models⟩

theorem keeps_of_sameCuts {I : Multistage α → Prop} {act : Run α (Multistage α) β}
    (h : ∀ P, Keeps (P₀.SameCuts · P) act) (hI : ∀ P, I P → P₀.Kept P)
    (hsame : ∀ P P', P₀.SameCuts P' P → I P → I P') : Keeps I act :=
  Keeps.iff_on.mpr fun P hP => hsame P _ (Keeps.iff_on.mp (h P) P (hI P hP).sameCuts) hP

theorem walkTwins_sameCuts (hP₀ : P₀.Fresh) (lp : Solver α) (P₁ : Multistage α) :
    WalkTwins lp lp fun P P' => P = P' ∧ P₀.SameCuts P P₁ :=
  walkTwins_self (Keeps.iff_on.mpr fun P hP => by rwa [hP.left.prepare_on hP₀])
    fun _ k s previous => visit_keepsCuts hP₀.toSettled lp k s previous

theorem Fresh.elementary (hP₀ : P₀.Fresh) {I : Multistage α → Prop} (hI : ∀ P, I P → P₀.Kept P)
    (hsame : ∀ P P', P₀.SameCuts P' P → I P → I P')
    (hbounded : ∀ P b, I P → I { P with lastBound := b })
    (hnamed : ∀ P x, I P → I { P with provenance := some x })
    (hadd : ∀ t k c, Keeps I (onModel t k (Stage.onPool (Pool.add c)))) : Elementary I where
  prepare := Keeps.iff_on.mpr fun P hP => by rwa [(hI P hP).prepare_on hP₀]
  bounded := hbounded
  named := hnamed
  visit := fun lp _ k s previous h =>
    keeps_of_sameCuts (fun _ => visit_keepsCuts hP₀.toSettled lp k s previous h) hI hsame
  outcomes := fun lp t k state noise =>
    keeps_of_sameCuts (fun _ => outcomes_keepsCuts hP₀.toSettled lp t k state noise) hI hsame
  computeBound := fun lp =>
  keeps_of_sameCuts (fun _ => computeBound_keepsCuts hP₀.toSettled lp) hI hsame
  add := hadd

theorem Fresh.elementary_kept (hP₀ : P₀.Fresh) : Elementary P₀.Kept :=
  hP₀.elementary (fun _ h => h) (fun _ _ h _ => h.left) (fun _ b h => h.withBound b)
    (fun _ _ h => ⟨h.frame, h.models⟩)
    fun _ _ c => onModel_keeps fun _ _ => Stage.onPool_keeps (Pool.grows_add c)

/-- Problems with the same cuts stay twins. -/
theorem twins_sameCuts (hP₀ : P₀.Fresh) (hlp : lp.Blind) : Twins lp lp P₀.SameCuts where
  skeleton := fun _ _ hP => hP.skeleton
  prepare := fun P P' hP => by
    rw [hP.left.prepare_on hP₀, hP.right.prepare_on hP₀]
    exact ⟨.ok rfl, hP⟩
  visit := fun _ k s previous h => visit_coupled hP₀.toSettled hlp k s previous h
  bounded := fun P P' hP b => ⟨hP.left.withBound b, hP.right.withBound b, hP.pool,
    (congrArg (fun Q : Multistage α => { Q with lastBound := b }) hP.skeleton :)⟩
  outcomes := outcomes_coupled hP₀.toSettled hlp
  refineAt := refineAt_coupled
  computeBound := computeBound_coupled hP₀.toSettled hlp

/-- What is done with a problem: work, or removing dominated cuts. -/
inductive Use : Multistage α → Multistage α → Prop
  | work {P P' : Multistage α} (h : Work P P') : Use P P'
  | prune (t k : ℤ) (P : Multistage α) : Use P ((onModelAt t k (Stage.onPool Pool.prune)).on P).2

theorem Fresh.keeps_use (hP₀ : P₀.Fresh) (hP : P₀.Kept P) (huse : Use P P') : P₀.Kept P' := by
  cases huse with
  | work hwork => exact hP₀.elementary_kept.work hwork hP
  | prune t k =>
    have hprune : Keeps P₀.Kept (onModelAt t k (Stage.onPool Pool.prune)) :=
      .get_bind fun _ =>
        .bind .ofExcept fun _ => onModel_keeps fun _ _ => Stage.onPool_keeps Pool.grows_prune
    exact Keeps.iff_on.mp hprune _ hP

theorem Fresh.kept_of_use (hP₀ : P₀.Fresh) (huse : Relation.ReflTransGen Use P₀ P) : P₀.Kept P := by
  induction huse with
  | refl => exact hP₀.toSettled.kept
  | tail _ hstep ih => exact hP₀.keeps_use ih hstep

/-! ### What is solved -/

omit [Scalar α] [Numeral α] in
theorem onModel_asks {act : Solver α → Stage.Edit α β} {Q : Program α} (hM : P.stageAt t k = some M)
    (h : Run.Asks act M Q) : Run.Asks (fun lp => onModel t k (act lp)) P Q := by
  intro lp lp' hlp
  rw [onModel_on_some hM, onModel_on_some hM, h lp lp' hlp]

omit [Scalar α] [Numeral α] in
theorem cutsAt_eq (hM : P.stageAt t k = some M) : P.cutsAt t k = M.cuts := by
  rw [cutsAt, hM, Stage.cuts, Stage.pool?, Option.map_map]
  rfl

/-- What a problem hands to its solver is known from the models of `P₀`, from what comes in and from
the scenario of the present call, and from the cuts that are stored: in a visit, for the bound, and
for each scenario of the outcomes of a model. -/
structure Oblivious (P₀ P : Multistage α) : Prop where
  visit : ∀ (t : ℕ) k s previous i place m,
    (previous = none → t = 0) → k.asWhole = .ok i → P.locate t i = .ok place →
    P₀.stageAt place.1 place.2 = some m →
    ∃ Q : Program α,
      Q.anonymous = (m.request (arrival previous) s (P.cutsAt place.1 place.2)).anonymous ∧
      Run.Asks (fun lp => visit lp t k s previous) P Q
  bound : ∀ m, P₀.stageAt 0 0 = some m →
    ∃ Q : Program α, Q.anonymous = (m.request none (.int 0) (P.cutsAt 0 0)).anonymous ∧
      Run.Asks computeBound P Q
  scenario : ∀ t k m M state noise lp (ks : List ℕ) xs M' (s : ℕ),
    P₀.stageAt t k = some m → P.stageAt t k = some M →
    (do Stage.enterIncoming state noise; ks.mapM (Stage.solveScenario lp)).on M = (.ok xs, M') →
    ∃ Q : Program α,
      Q.anonymous = (m.request (some (state, noise)) (.int s) (P.cutsAt t k)).anonymous ∧
      Run.Asks (Stage.solveScenario · s) M' Q

theorem visit_asks (hP₀ : P₀.Settled) (hP : P₀.Kept P) {k s : Datum α} {previous : Option (Visit α)}
    (hprevious : previous = none → t = 0) {i : ℤ} (hi : k.asWhole = .ok i) {place : ℕ × ℕ}
    (hplace : P.locate t i = .ok place) (hm : P₀.stageAt place.1 place.2 = some m) :
    ∃ Q : Program α,
    Q.anonymous = (m.request (arrival previous) s (P.cutsAt place.1 place.2)).anonymous ∧
      Run.Asks (fun lp => visit lp t k s previous) P Q := by
  obtain ⟨M, hM, hkept⟩ := hP.stageAt_some hm
  have harrival := hP₀.arrival_none hprevious (hP.locate_eq t i ▸ hplace) hm
  obtain ⟨Q, hQ, hasks⟩ := Stage.follow_asks (hP₀.models _ _ m hm) harrival hkept P.discount t k s
  refine ⟨Q, by rw [cutsAt_eq hM, hQ], ?_⟩
  have hvisit (lp : Solver α) : (visit lp t k s previous).on P =
      (onModel place.1 place.2 (Stage.follow lp P.discount t k s (arrival previous))).on P := by
    rw [visit_eq, Run.bind_ok _ (Run.get_on P), hi, Run.bind_ok _ (Run.ofExcept_on _ P),
      Run.bind_ok _ (Run.get_on P), hplace, Run.bind_ok _ (Run.ofExcept_on _ P)]
  intro lp lp' hlp
  rw [hvisit, hvisit]
  exact onModel_asks hM hasks lp lp' hlp

theorem computeBound_asks (hP₀ : P₀.Settled) (hP : P₀.Kept P) (hm : P₀.stageAt 0 0 = some m) :
    ∃ Q : Program α, Q.anonymous = (m.request none (.int 0) (P.cutsAt 0 0)).anonymous ∧
      Run.Asks computeBound P Q := by
  obtain ⟨M, hM, hkept⟩ := hP.stageAt_some hm
  have hentered := hkept.unlinked (hP₀.first 0 m hm)
  obtain ⟨Q, hQ, hasks⟩ := Stage.solveFor_asks hentered (hP₀.models 0 0 m hm) (.int 0) .null "bound"
  refine ⟨Q, by rw [cutsAt_eq hM, hQ], onModel_asks hM ?_⟩
  change Run.Asks Stage.estimate M Q
  rw [funext Stage.estimate_eq]
  exact hasks.bind _

theorem scenario_asks (hP₀ : P₀.Settled) (hP : P₀.Kept P) (hm : P₀.stageAt t k = some m)
    (hM : P.stageAt t k = some M) {state : List α} {noise : Option (List α)} {ks : List ℕ}
    {xs : List (α × List α)} {M' : Stage α}
    (hrun : (do Stage.enterIncoming state noise; ks.mapM (Stage.solveScenario lp)).on M =
      (.ok xs, M')) (s : ℕ) :
    ∃ Q : Program α,
    Q.anonymous = (m.request (some (state, noise)) (.int s) (P.cutsAt t k)).anonymous ∧
      Run.Asks (Stage.solveScenario · s) M' Q := by
  have hsettled := hP₀.models t k m hm
  obtain ⟨M₁, henter, hpool, -, hok⟩ := (hP.models t k m M hm hM).enterIncoming hsettled state noise
  obtain ⟨_, M₁', hincoming, hscenarios⟩ := Run.exists_of_bind hrun
  obtain ⟨hr, rfl⟩ := Prod.mk.inj (henter.symm.trans hincoming)
  have hscenario (k : ℕ) : Keeps (fun M' => m.Entered (some (state, noise)) M' ∧ M'.pool? = M.pool?)
      (Stage.solveScenario lp k) := Stage.solveScenario_keeps hsettled k lp M.pool?
  have hkeeps : Keeps _ (ks.mapM (Stage.solveScenario lp)) :=
    Keeps.of_triple (Triple.mapM (S := fun _ _ => True) fun k _ => (hscenario k).and_pure trivial)
  obtain ⟨hentered, hpool'⟩ := (hkeeps M₁ ⟨hok hr, hpool⟩).1 _ _ hscenarios
  obtain ⟨Q, hQ, hasks⟩ := Stage.solveFor_asks hentered hsettled (.int s) (.int s) "backward"
  have hcuts : M'.cuts = P.cutsAt t k := by rw [cutsAt_eq hM, Stage.cuts, Stage.cuts, hpool']
  refine ⟨Q, hcuts ▸ hQ, ?_⟩
  simp only [Stage.solveScenario_eq]
  exact hasks.bind _

theorem Kept.oblivious (h : P₀.Kept P) (hP₀ : P₀.Settled) : P₀.Oblivious P where
  visit := fun _ _ _ _ _ _ _ hprevious hi hplace hm => visit_asks hP₀ h hprevious hi hplace hm
  bound := fun _ hm => computeBound_asks hP₀ h hm
  scenario := fun _ _ _ _ _ _ _ _ _ _ s hm hM hrun => scenario_asks hP₀ h hm hM hrun s

end Multistage

/-! ### Evaluations in between -/

/-- A call on a session: to train, or to evaluate the policy with a source of its own. -/
inductive Call (γ α : Type)
  | train (o : TrainingPlan α) (seed : Datum α)
  | evaluate (e : Evaluation α) (o : EvaluationPlan α) (seed : Datum α) (source : γ)

def Call.isTraining : Call γ α → Bool
  | .train _ _ => true
  | .evaluate _ _ _ _ => false

namespace Session

variable [Source γ α] [Inference α]

/-- Evaluate the policy apart from the session, of which only the problem is used. -/
def evaluateApart (lp : Solver α) (e : Evaluation α) (o : EvaluationPlan α) (seed : Datum α)
    (source : γ) (x : Session γ α) : Session γ α :=
  let y := ((Evaluation.runSeeded lp o seed).on
      { evaluation := e, simulation := { x.simulation with source } }).2
  { x with simulation := { x.simulation with problem := y.simulation.problem } }

/-- Make some calls, one after the other, whatever becomes of each. What trainings answer is
collected. -/
def perform (lp : Solver α) : List (Call γ α) → Session γ α →
    List (Except (Fault α) Ending) × Session γ α
  | [], x => ([], x)
  | .train o seed :: calls, x =>
    let (r, x) := (trainSeeded lp o seed).on x
    let (rs, x) := perform lp calls x
    (r :: rs, x)
  | .evaluate e o seed source :: calls, x => perform lp calls (evaluateApart lp e o seed source x)

/-- Two sessions with the same results: bounds, values and cuts, and what goes on from them. -/
structure SameResults (x y : Session γ α) : Prop where
  bounds : x.record.bounds = y.record.bounds
  values : x.record.values = y.record.values
  iteration : x.record.iteration = y.record.iteration
  source : x.simulation.source = y.simulation.source
  pools : ∀ t k, x.simulation.problem.poolAt t k = y.simulation.problem.poolAt t k
  lastBound : x.simulation.problem.lastBound = y.simulation.problem.lastBound

variable {P₀ : Multistage α} {lp : Solver α} {x y : Session γ α}

omit [Source γ α] [Inference α] in
theorem Twin.sameResults (h : Twin P₀.SameCuts x y) : SameResults x y where
  bounds := (congrArg Record.bounds h.record :)
  values := (congrArg Record.values h.record :)
  iteration := (congrArg Record.iteration h.record :)
  source := h.simulation.source
  pools := h.simulation.problem.pool
  lastBound := h.simulation.problem.bound

theorem Twin.evaluateApart (h : Twin P₀.SameCuts x y) (hP₀ : P₀.Fresh) (e : Evaluation α)
    (o : EvaluationPlan α) (seed : Datum α) (source : γ) :
    Twin P₀.SameCuts (x.evaluateApart lp e o seed source) y := by
  have hproblem := h.simulation.problem
  have hkeeps := Evaluation.runSeeded_keeps_of (γ := γ)
    (Multistage.walkTwins_sameCuts hP₀ lp y.simulation.problem) o seed
  have hsame := Keeps.iff_on.mp hkeeps
    { evaluation := e, simulation := { x.simulation with source } } hproblem
  exact ⟨⟨hsame, h.simulation.source⟩, h.record⟩

/-- Calls with evaluations beside the trainings among them alone. -/
theorem perform_twins (hP₀ : P₀.Fresh) (hlp : lp.Blind) (calls : List (Call γ α))
    (h : Twin P₀.SameCuts x y) :
    (perform lp calls x).1 = (perform lp (calls.filter Call.isTraining) y).1 ∧
      Twin P₀.SameCuts (perform lp calls x).2 (perform lp (calls.filter Call.isTraining) y).2 := by
  induction calls generalizing x y with
  | nil => exact ⟨rfl, h⟩
  | cons call calls ih =>
    cases call with
    | train o seed =>
      obtain ⟨hanswer, hxy⟩ := trainSeeded_coupled (Multistage.twins_sameCuts hP₀ hlp) o seed x y h
      obtain ⟨hanswers, hxy⟩ := ih hxy
      exact ⟨congrArg₂ List.cons hanswer.eq hanswers, hxy⟩
    | evaluate e o seed source => exact ih (h.evaluateApart hP₀ e o seed source)

end Session

variable [Source γ α] [Inference α]

/-- However a prepared problem was used, whatever is solved next does not depend on that but for the
stored cuts; and evaluations between trainings change nothing of what these find. -/
theorem Multistage.use_forgotten {p P₀ : Multistage α} (hp : p.Settled)
    (hprepare : prepare.on p = (.ok (), P₀)) :
    (∀ P, Relation.ReflTransGen Use P₀ P → P₀.Oblivious P) ∧
      ∀ (lp : Solver α), lp.Blind → ∀ (x : Session γ α),
        Relation.ReflTransGen Use P₀ x.simulation.problem →
        ∀ calls : List (Call γ α),
          (Session.perform lp calls x).1 = (Session.perform lp (calls.filter Call.isTraining) x).1 ∧
          Session.SameResults (Session.perform lp calls x).2
            (Session.perform lp (calls.filter Call.isTraining) x).2 := by
  have hP₀ := hp.fresh hprepare
  refine ⟨fun P hP => (hP₀.kept_of_use hP).oblivious hP₀.toSettled, fun lp hlp x hx calls => ?_⟩
  have hself : Session.Twin P₀.SameCuts x x := ⟨⟨(hP₀.kept_of_use hx).sameCuts, rfl⟩, rfl⟩
  obtain ⟨hanswers, htwin⟩ := Session.perform_twins hP₀ hlp calls hself
  exact ⟨hanswers, htwin.sameResults⟩

/-! ### Trainings with evaluations in between -/

namespace Problems

theorem shortage_settled : shortage.Settled := by
  refine Multistage.settled_of_wellFormed fun t k m hm => ?_
  obtain ⟨-, rfl⟩ | ⟨-, rfl⟩ := stageAt_shortage hm
  · exact purchase_wellFormed
  · exact demand_wellFormed

theorem stockOptimum_blind : stockOptimum.Blind := by
  have hanonymous (Q : Program ℚ) : stockOptimum Q.anonymous = stockOptimum Q := by
    unfold stockOptimum shortageOptimum Program.anonymous
    rcases Q.rows with _ | ⟨r, _ | ⟨r', _ | ⟨r'', rows⟩⟩⟩ <;> rfl
  intro Q Q' h
  rw [← hanonymous Q, h, hanonymous Q']

def shortageReady : Session ℕ ℚ := Session.new shortageStart.session.simulation.problem 0

def shortageCalls : List (Call ℕ ℚ) :=
  let training := { shortagePlan with maxIterations := .int 1, evaluationPeriod := .null }
  let evaluation (source : ℕ) : Call ℕ ℚ :=
    .evaluate (Evaluation.new shortage) { simulations := .int (-1) } .null source
  [evaluation 7, .train training .null, evaluation 8, .train training .null]

end Problems

open Problems in
theorem Multistage.use_forgotten_shortage :
    (Session.perform stockOptimum shortageCalls shortageReady).2.record.bounds = [1, 3 / 2] ∧
    shortageReady.simulation.problem.Oblivious
      ((Session.trainSeeded stockOptimum shortagePlan .null).on
        shortageReady).2.simulation.problem ∧
    Session.SameResults (Session.perform stockOptimum shortageCalls shortageReady).2
      (Session.perform stockOptimum (shortageCalls.filter Call.isTraining) shortageReady).2 :=
  have hforgotten := Multistage.use_forgotten (γ := ℕ) shortage_settled shortage_prepared
  ⟨by decide +kernel,
  hforgotten.1 _ (.single (.work (.train stockOptimum shortagePlan .null shortageReady))),
    (hforgotten.2 stockOptimum stockOptimum_blind shortageReady .refl shortageCalls).2⟩

end Recourse
