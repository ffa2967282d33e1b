import Recourse.Proofs.Crew
import Recourse.Proofs.Multistage.Policy

/-! No policy beats the bound. Whatever was trained before, an evaluation of all paths finds the
cost of a plan, and bounds are no worse than the costs of all plans. This takes a solver that solves
one program in one way: where optima are not unique and each path is walked with optima of its own,
what is found is the cost of no plan. -/

namespace Recourse

open Run (Keeps)

variable {γ δ α : Type} [Field α] [LinearOrder α] [Numeral α]

/-! ### Optima that show themselves do not depend on names -/

namespace Program

variable {P : Program α} {duals : List α}

omit [Numeral α] in
theorem reducedCost_anonymous (j : ℕ) :
    P.anonymous.reducedCost duals j = P.reducedCost duals j := by
  simp only [reducedCost, anonymous, List.zip_map_left, List.map_map]
  rfl

omit [Numeral α] in
theorem leastAt_anonymous (j : ℕ) : P.anonymous.leastAt duals j = P.leastAt duals j := by
  rw [leastAt, reducedCost_anonymous]
  rfl

omit [Numeral α] in
theorem dualValue_anonymous : P.anonymous.dualValue duals = P.dualValue duals := by
  simp only [dualValue, leastAt_anonymous]
  simp only [anonymous, List.zip_map_left, List.map_map]
  rfl

omit [Numeral α] in
theorem verifies_anonymous {o : Optimum α} : P.anonymous.Verifies o ↔ P.Verifies o := by
  have hzip : P.anonymous.rows.zip o.duals = (P.rows.zip o.duals).map
      (Prod.map (fun r => { r with id := 0 }) id) :=
    List.zip_map_left ..
  have hpriced (S : Relation → α → Prop) :
      (∀ ry ∈ P.anonymous.rows.zip o.duals, S ry.1.relation ry.2) ↔
      ∀ ry ∈ P.rows.zip o.duals, S ry.1.relation ry.2 := by
    rw [hzip, List.forall_mem_map]
    exact Iff.rfl
  have hanonymous : P.anonymous.anonymous = P.anonymous := by simp [anonymous]
  constructor
  · intro h
    exact ⟨feasible_of_anonymous hanonymous h.feasible,
      h.objective, by simpa [anonymous] using h.length,
      (hpriced fun r y => r = .atLeast → 0 ≤ P.sense.orient y).mp h.atLeast,
      (hpriced fun r y => r = .atMost → P.sense.orient y ≤ 0).mp h.atMost,
      fun j hj => by simpa only [leastAt_anonymous] using h.least j hj,
      dualValue_anonymous (P := P) ▸ h.tight⟩
  · intro h
    exact ⟨feasible_of_anonymous hanonymous.symm h.feasible,
      h.objective, by simpa [anonymous] using h.length,
      (hpriced fun r y => r = .atLeast → 0 ≤ P.sense.orient y).mpr h.atLeast,
      (hpriced fun r y => r = .atMost → P.sense.orient y ≤ 0).mpr h.atMost,
      fun j hj => by simpa only [leastAt_anonymous] using h.least j hj,
      dualValue_anonymous (P := P) ▸ h.tight⟩

end Program

omit [Numeral α] in
theorem Solver.verified_blind {lp : Solver α} (h : lp.Blind) : lp.verified.Blind := by
  intro Q Q' hQ
  have hverifies (o : Optimum α) : Q.Verifies o ↔ Q'.Verifies o := by
    rw [← Program.verifies_anonymous, hQ, Program.verifies_anonymous]
  unfold verified
  simp only [h Q Q' hQ, hverifies]

namespace Crew

variable {P₀ : Multistage α} {x y : Crew γ α}

omit [LinearOrder α] [Numeral α] [Field α] in
theorem settle_session (x : Crew γ α) (i : ℕ) (r : Except (Fault α) (Worker α) × Session γ α) :
    (x.settle i r).session = r.2 := by
  rcases r with ⟨e | w, session⟩ <;> rfl

theorem Step.kept (hstep : Step x y) (hP₀ : P₀.Fresh) (hx : P₀.Kept x.session.simulation.problem) :
    P₀.Kept y.session.simulation.problem := by
  have hkept := hP₀.elementary_kept
  cases hstep with
  | hire states noises => exact hx
  | work hlp _ i =>
    rename_i lp
    unfold Crew.work
    rcases x.workers[i]? with _ | w
    · exact hx
    have hwork : Keeps P₀.Kept (w.step lp) := by
      unfold Worker.step
      split
      · exact .pure
      · exact .bind .ofExcept fun _ => .bind .ofExcept fun _ => .get_bind fun _ => .pure
      · exact (hkept.outcomes lp _ _ _ _).bind fun _ => .pure
      · exact (hkept.refineAt _ _ _ _ _).bind fun _ => .pure
      · exact .pure
    change P₀.Kept (x.settle i _).session.simulation.problem
    rw [settle_session]
    exact Keeps.iff_on.mp hwork _ hx
  | visit lp _ t k s previous =>
    exact Keeps.iff_on.mp (Multistage.visit_keepsRows hP₀.toSettled lp t k s previous) _ hx
  | @measure lp hlp _ values signal =>
    have hmeasure : Keeps (fun x : Session γ α => P₀.Kept x.simulation.problem)
        (do Session.keep (← Session.onProblem (Multistage.computeBound lp)) values signal) := by
      apply Keeps.bind
      · exact Keeps.iff_on.mpr fun x hx => Keeps.iff_on.mp (hkept.computeBound lp) _ hx
      · intro b
        exact Session.keep_triple_of (I := fun x : Session γ α => P₀.Kept x.simulation.problem)
          (fun _ hx => hx)
          (fun _ hx => hx.withBound _) (fun _ _ hx => hx) values signal
    exact Keeps.iff_on.mp hmeasure _ hx
  | evaluate lp _ o limit =>
    exact Keeps.iff_on.mp (Session.evaluate_keeps_of (hkept.twins lp).toWalkTwins o limit) _ hx
  | train hlp _ o seed => exact hkept.work (.train _ o seed x.session) hx

theorem kept_of_reached (hP₀ : P₀.Fresh) (source : γ)
    (hrun : Relation.ReflTransGen Step { session := Session.new P₀ source, workers := [] } x) :
    P₀.Kept x.session.simulation.problem := by
  induction hrun with
  | refl => exact hP₀.toSettled.kept
  | tail _ hstep ih => exact hstep.kept hP₀ ih

end Crew

namespace Multistage

variable {p P₀ : Multistage α}

/-- A problem as it was written, all of whose parts are as they should be: its chain was accepted,
its probabilities add up, its models refer to parts of their own and have the limits that adding
columns leaves them, it is judged by expectation, and its bound is one of all plans. -/
structure Sane (p : Multistage α) : Prop where
  charted : p.Charted
  stochastic : p.Stochastic
  models : ∀ t k m, p.stageAt t k = some m →
    m.WellFormed ∧ m.sense = p.sense ∧ ∀ c ∈ m.columns, c.Trimmed
  neutral : p.Neutral
  bound : p.BoundsPlans
  unprepared : p.prepared = false
  untrained : p.lastBound = none

variable [IsStrictOrderedRing α]

theorem Sane.wellFormed (h : p.Sane) : p.WellFormed :=
  h.charted.wellFormed (fun t k m hm => ⟨(h.models t k m hm).1, (h.models t k m hm).2.1⟩)
    h.unprepared

end Multistage

namespace Evaluation

open Multistage (Sane)

variable [IsStrictOrderedRing α] {p P₀ : Multistage α} {lp : Solver α} {y : Crew γ α}

/-- What the policy is worth, after whatever was done to train it, is no better than any bound that
was found. It is found by an evaluation of all paths, if each path is worth something and there are
not too many of them to have seeds. The solver may be any exact one, as long as its optima depend on
nothing but the program. -/
theorem bound_le_exact (hp : p.Sane) (hprepare : Multistage.prepare.on p = (.ok (), P₀))
    (source : γ)
    (hrun : Relation.ReflTransGen Crew.Step { session := Session.new P₀ source, workers := [] } y)
    (hexact : lp.Exact) (hblind : lp.Blind)
    (hquotient : ∀ jobs k q : ℤ, 0 < k → k ≤ jobs →
      Schedule.quotient (α := α) jobs k = .ok q → 0 ≤ q)
    [Source δ α] [Inference α] {x : Assessment δ α}
    (hx : x.simulation.problem = y.session.simulation.problem)
    {o : EvaluationPlan α} (ho : o.isExhaustive = true) {n : ℤ} (hn : o.workers = .int n)
    (seed : Datum α) :
    (∀ x', (runSeeded lp o seed).on x = (.ok (), x') → ∃ e, x'.evaluation.exact = some e ∧
      ∀ b, (y.session.simulation.problem.lastBound = some b ∨ b ∈ y.session.record.bounds) →
        p.sense.orient b ≤ p.sense.orient e) ∧
    ((p.paths.length : ℤ) ≤ 2 ^ 32 →
      (∀ path ∈ p.paths, ∃ v, y.session.simulation.problem.worth lp path = .ok v) →
      (seed.isNull = true ∨ ∃ source : δ, seeded? seed = .ok source) →
      ∃ x', (runSeeded lp o seed).on x = (.ok (), x')) := by
  have hwf := hp.wellFormed
  have hs := hp.stochastic
  have hsound := Crew.sound_of_reached hwf hs
    (hp.bound.realistic hwf hs hp.neutral) hprepare source hrun
  obtain ⟨htrained, hchecked, hcomplete⟩ :=
    (Multistage.prepare_trained (F := p.Plan) hwf p rfl).1 () P₀ hprepare
  have hP₀ : P₀.Fresh :=
    (Multistage.settled_of_wellFormed fun t k m hm => (hp.models t k m hm).1).fresh hprepare
  have hkept := Crew.kept_of_reached hP₀ source hrun
  have hfirst := Multistage.certain_of_check (Multistage.check_of_prepare hp.unprepared hprepare)
  set P := y.session.simulation.problem
  have hguarded : p.Guarded P₀ p.Plan P :=
    ⟨hchecked, hP₀, htrained, hcomplete, hkept, hsound.session.trained⟩
  have hbound : ∀ b, (P.lastBound = some b ∨ b ∈ y.session.record.bounds) →
      p.BoundFor p.Plan b := by
    rintro b (hb | hb)
    · rcases hsound.session.trained.bound with hnone | ⟨b', hb', hbound⟩
      · rw [hp.untrained] at hnone
        cases hb.symm.trans hnone
      · obtain rfl := Option.some.inj (hb'.symm.trans hb)
        exact hbound
    · exact hsound.session.bounds b hb
  have hdraft : P.draft = p.draft := hkept.draft_eq.trans (Multistage.draft_of_prepare hprepare)
  have hprepared : Multistage.prepare.on x.simulation.problem = (.ok (), P) := by
    rw [hx]
    exact hkept.prepare_on hP₀
  have hevaluated := runSeeded_exhaustive hP₀ hblind hkept (hp.charted.of_draft hdraft)
    (hs.of_draft hdraft)
    (hfirst.of_draft hdraft) hprepared hquotient ho hn seed
  simp only [Multistage.paths_of_draft hdraft, Multistage.expectation_of_draft hdraft] at hevaluated
  refine ⟨fun x' hrun' => ?_, hevaluated.2⟩
  obtain ⟨f, hf, -, hvalue⟩ := hevaluated.1 x' hrun'
  refine ⟨p.expectation f, hvalue, fun b hb => ?_⟩
  obtain ⟨m, hm, hcosts⟩ := hguarded.exists_cost hp.charted hs hexact
    (fun t k m hm => (hp.models t k m hm).2.2) hblind hfirst hf
  exact hbound b hb m hm _ hcosts

end Evaluation

namespace Problems

theorem shortage_sane : shortage.Sane where
  charted := shortage_charted
  stochastic := shortage_stochastic
  models t k m hm := by
    obtain ⟨-, rfl⟩ | ⟨-, rfl⟩ := stageAt_shortage hm
    · exact ⟨purchase_wellFormed, rfl, fun c hc => by fin_cases hc <;> exact ⟨by decide, by decide⟩⟩
    · exact ⟨demand_wellFormed, rfl, fun c hc => by fin_cases hc <;> exact ⟨by decide, by decide⟩⟩
  neutral choice hchoice := by
    obtain rfl : choice = .neutral := by simpa [shortage] using hchoice
    rfl
  bound := by
    refine shortage_costly.boundsPlans shortage_wellFormed shortage_stochastic fun b hb => ?_
    obtain rfl : (0 : ℚ) = b := Except.ok.inj hb
    exact le_rfl
  unprepared := rfl
  untrained := rfl

def shortageBounded : Crew ℕ ℚ :=
  { session := ((Session.trainSeeded stockOptimum.verified
    { shortagePlan with maxIterations := .int 1 } .null).on shortageReady).2
    workers := [] }

def shortageWorth : Except (Fault ℚ) Unit × Assessment ℕ ℚ :=
  (Evaluation.runSeeded stockOptimum.verified
    { simulations := .int (-1), workers := .int 2 } .null).on
    { evaluation := Evaluation.new shortage
      simulation := { problem := shortageBounded.session.simulation.problem, source := 0 } }

end Problems

open Problems in
theorem Evaluation.bound_le_exact_shortage :
    shortageBounded.session.simulation.problem.lastBound = some 1 ∧
    shortageWorth.2.evaluation.exact = some (3 / 2) ∧
    ∃ e, shortageWorth.2.evaluation.exact = some e ∧
      ∀ b, (shortageBounded.session.simulation.problem.lastBound = some b ∨
        b ∈ shortageBounded.session.record.bounds) →
        shortage.sense.orient b ≤ shortage.sense.orient e :=
  have hexact := stockOptimum.verified_exact
  have hrun : Relation.ReflTransGen Crew.Step
      { session := shortageReady, workers := [] } shortageBounded :=
    .single (.train hexact _ _ _)
  have hbound := Evaluation.bound_le_exact shortage_sane shortage_prepared 0 hrun hexact
    (Solver.verified_blind stockOptimum_blind) quotient_nonneg rfl
    (o := { simulations := .int (-1), workers := .int 2 })
    (by decide +kernel) rfl .null
  ⟨by decide +kernel, by decide +kernel, hbound.1 _ (Run.on_of_isOk (by decide +kernel))⟩

/-! ### Solvers that vary -/

def Multistage.walkPaths (lps : ScenarioPath → Solver α) :
    List ScenarioPath → Run α (Simulation γ α) (List (Trajectory α))
  | [] => pure []
  | path :: paths => do
    let x ← walk (lps path) (Guide.along path)
    return x :: (← walkPaths lps paths)

/-- What an evaluation of all paths finds if it is made by one worker, with a solver for each
path. -/
def Evaluation.exactBy (lps : ScenarioPath → Solver α) : Run α (Simulation γ α) α := do
  let p := (← get).problem
  let walks ← Multistage.walkPaths lps p.paths
  let weights ← Run.ofExcept (p.paths.mapM p.weight)
  return Scalar.dot (walks.map Trajectory.value) weights

theorem Multistage.walkEach_eq_walkPaths (lp : Solver α) (paths : ℤ → ScenarioPath)
    (jobs : List ℤ) :
    (walkEach lp (fun j => Guide.along (paths j)) jobs : Run α (Simulation γ α) _) =
      walkPaths (fun _ => lp) (jobs.map paths) := by
  induction jobs with
  | nil => rfl
  | cons j jobs ih => rw [walkEach, ih, List.map_cons, walkPaths]

/-- With a blind solver that is the same for all paths, this is what an evaluation finds. -/
theorem Evaluation.exactBy_const [IsStrictOrderedRing α] {P₀ P : Multistage α} {lp : Solver α}
    (hP₀ : P₀.Fresh)
    (hlp : lp.Blind) (hkept : P₀.Kept P) (hcharted : P.Charted) (hs : P.Stochastic)
    (hfirst : P.Certain)
    (hquotient : ∀ jobs k q : ℤ, 0 < k → k ≤ jobs →
      Schedule.quotient (α := α) jobs k = .ok q → 0 ≤ q)
    [Source δ α] [Inference α] {x x' : Assessment δ α}
    (hx : Multistage.prepare.on x.simulation.problem = (.ok (), P)) {o : EvaluationPlan α}
    (ho : o.isExhaustive = true) {n : ℤ} (hn : o.workers = .int n) (seed : Datum α)
    (h : (runSeeded lp o seed).on x = (.ok (), x')) (source : γ) :
    ((exactBy fun _ => lp).on { problem := P, source }).1.toOption = x'.evaluation.exact := by
  obtain ⟨f, hf, -, hexact⟩ :=
    (runSeeded_exhaustive hP₀ hlp hkept hcharted hs hfirst hx hquotient ho hn seed).1 x' h
  obtain ⟨weights, hweights, -, -, hdot⟩ := hcharted.weights_spec hs hfirst
  obtain ⟨r, Q, hwalks, hworth, -⟩ :=
    Multistage.walkEach_worth (fun j => P.paths.getD j.toNat []) hP₀ hlp
    hkept.sameCuts (Schedule.span 0 P.paths.length) source
  rw [mapM_span, mapM_ok hf] at hworth
  rw [Multistage.walkEach_eq_walkPaths, map_span] at hwalks
  rcases r with e | walks
  · cases hworth
  have hvalues : walks.map Trajectory.value = P.paths.map f := Except.ok.inj hworth
  rw [exactBy, Run.bind_ok _ (Run.get_on _), Run.bind_ok _ hwalks, hweights,
    Run.bind_ok _ (Run.ofExcept_on _ _),
    hvalues, hdot, hexact]
  rfl

namespace Problems

/-- Where all stocks from one to three are optimal, the least one is found if the demand that will
come is low, and the largest one if it is high. -/
def fickleOptimum (path : ScenarioPath) : Solver ℚ := fun P =>
  match shortageOptimum P with
  | .optimal o =>
    if o.duals = [0, 1] ∧ path.getLast?.map Prod.snd = some 1 then
      .optimal { o with point := [3, 0, 0] } else .optimal o
  | verdict => verdict

end Problems

open Problems in
/-- Each of the solvers is exact, and so was the one that found the bound. -/
theorem Evaluation.exactBy_fickle : (∀ path, (fickleOptimum path).verified.Exact) ∧ shortage.Sane ∧
    Relation.ReflTransGen Crew.Step shortageStart shortageRun ∧
    shortageRun.session.simulation.problem.lastBound = some (3 / 2) ∧
    ((exactBy fun path => (fickleOptimum path).verified).on
      shortageRun.session.simulation).1.toOption = some 1 ∧
    ¬ shortage.sense.orient (3 / 2 : ℚ) ≤ shortage.sense.orient 1 :=
  ⟨fun path => (fickleOptimum path).verified_exact, shortage_sane,
    shortageRun_reached, by decide +kernel,
    by decide +kernel, by decide +kernel⟩

end Recourse
