import Recourse.Proofs.Fraction
import Recourse.Proofs.Linear.Certificate
import Recourse.Proofs.Multistage.Bounded
import Recourse.Proofs.Multistage.Preparation
import Recourse.Proofs.Training
import Recourse.Proofs.Workers

/-! Sessions with workers. Whatever the workers do and in whichever order they do it, the cuts stay
valid and the bounds stay bounds. -/

namespace Recourse

open Run (Triple Keeps)

variable {γ α β : Type}

structure Crew (γ α : Type) where
  session : Session γ α
  workers : List (Worker α)

namespace Crew

variable [Scalar α] [Numeral α]

def after (x : Crew γ α) (act : Run α (Session γ α) β) : Crew γ α :=
  { x with session := (act.on x.session).2 }

def hire (x : Crew γ α) (states : List (List α)) (noises : List (Option (List α))) : Crew γ α :=
  { x with workers := x.workers ++
    [{ states, noises, phase := .ahead (x.session.simulation.problem.horizon - 1) }] }

def settle (x : Crew γ α) (i : ℕ) : Except (Fault α) (Worker α) × Session γ α → Crew γ α
  | (.ok w, session) => { session, workers := x.workers.set i w }
  | (.error _, session) => { session, workers := x.workers.eraseIdx i }

def work (lp : Solver α) (x : Crew γ α) (i : ℕ) : Crew γ α :=
  match x.workers[i]? with
  | none => x
  | some w => x.settle i ((Session.onProblem (w.step lp)).on x.session)

end Crew

/-! ### Runs -/

namespace Crew

section

variable [Field α] [LinearOrder α] [Numeral α]

/-- A step of a session with workers: a worker starts or takes a step, the policy is followed for a
stage, the bound is recorded, the policy is evaluated, or training goes on by itself until it ends.
Each step may have a solver, a source and an inference of its own, as long as a solver whose prices
are used is exact. What is recorded and what is evaluated may be cut short. -/
inductive Step : Crew γ α → Crew γ α → Prop
  | hire (x : Crew γ α) (states : List (List α)) (noises : List (Option (List α))) :
    Step x (x.hire states noises)
  | work {lp : Solver α} (hlp : lp.Exact) (x : Crew γ α) (i : ℕ) : Step x (x.work lp i)
  | visit (lp : Solver α) (x : Crew γ α) (t : ℕ) (k s : Datum α) (previous : Option (Visit α)) :
    Step x (x.after (Session.onProblem (Multistage.visit lp t k s previous)))
  | measure {lp : Solver α} (hlp : lp.Exact) (x : Crew γ α) (values : List α)
    (signal : Signal) :
    Step x (x.after do
      Session.keep (← Session.onProblem (Multistage.computeBound lp)) values signal)
  | evaluate [Source γ α] [Inference α] (lp : Solver α) (x : Crew γ α) (o : EvaluationPlan α)
    (limit : Option ℕ) : Step x (x.after (Session.evaluate lp o limit))
  | train [Source γ α] [Inference α] {lp : Solver α} (hlp : lp.Exact) (x : Crew γ α)
    (o : TrainingPlan α)
    (seed : Datum α) : Step x (x.after (Session.trainSeeded lp o seed))

/-- The workers may take their turns in any order. -/
theorem reached_of_turns {lp : Solver α} (hlp : lp.Exact) (turns : List ℕ) (x : Crew γ α) :
    Relation.ReflTransGen Step x (turns.foldl (work lp) x) := by
  induction turns generalizing x with
  | nil => exact .refl
  | cons i turns ih => exact .head (.work hlp x i) (ih (x.work lp i))

/-- A crew whose session is sound, and all of whose workers have found what supports the
outcomes. -/
structure Sound (p : Multistage α) (F : Multistage.Prospect α) (x : Crew γ α) : Prop where
  session : x.session.Sound p F
  workers : ∀ w ∈ x.workers, w.Sound p F

variable {p P : Multistage α} {F : Multistage.Prospect α} {lp : Solver α} {x y : Crew γ α}

theorem Sound.after (h : x.Sound p F) {act : Run α (Session γ α) β}
    (hact : Keeps (Session.Sound p F) act) :
    (x.after act).Sound p F :=
  ⟨Keeps.iff_on.mp hact x.session h.session, h.workers⟩

theorem Sound.hire (h : x.Sound p F) (hp : p.WellFormed) (states : List (List α))
    (noises : List (Option (List α))) :
    (x.hire states noises).Sound p F := by
  refine ⟨h.session, fun w hw => ?_⟩
  rcases List.mem_append.mp hw with hw | hw
  · exact h.workers w hw
  · obtain rfl := List.mem_singleton.mp hw
    have hhorizon : x.session.simulation.problem.horizon = p.horizon := by
      rw [h.session.trained.frame]
    have := hp.start.1
    change x.session.simulation.problem.horizon - 1 < p.horizon
    omega

variable [IsStrictOrderedRing α]

theorem Sound.work (h : x.Sound p F) (hp : p.Checked) (hs : p.Stochastic) (hF : p.Realistic F)
    (hlp : lp.Exact) (i : ℕ) :
    (x.work lp i).Sound p F := by
  unfold Crew.work
  rcases hi : x.workers[i]? with _ | w
  · exact h
  · have hw := h.workers w (List.mem_of_getElem? hi)
    obtain ⟨hok, herror⟩ := Session.onProblem_triple
      (Worker.step_triple hp hs hF hlp hw) x.session h.session
    change (x.settle i _).Sound p F
    rcases hrun : (Session.onProblem (w.step lp)).on x.session with ⟨e | w', session⟩
    · exact ⟨herror e session hrun, fun v hv => h.workers v (List.mem_of_mem_eraseIdx hv)⟩
    · refine ⟨(hok w' session hrun).1, fun v hv => ?_⟩
      rcases List.mem_or_eq_of_mem_set hv with hv | rfl
      · exact h.workers v hv
      · exact (hok v session hrun).2

theorem Sound.step (h : x.Sound p F) (hp : p.Checked) (hs : p.Stochastic) (hF : p.Realistic F)
    (hstep : Step x y) :
    y.Sound p F := by
  cases hstep with
  | hire _ states noises => exact h.hire hp.wellFormed states noises
  | work hlp _ i => exact h.work hp hs hF hlp i
  | visit lp _ t k s previous =>
    exact h.after (Session.onProblem_keeps (Multistage.visit_keeps hp.wellFormed lp t k s previous))
  | measure hlp _ values signal =>
    exact h.after (Triple.bind (Session.onProblem_triple (Multistage.computeBound_triple hp hF hlp))
      fun _ => Triple.of_and fun hbound => Session.keep_keeps hbound values signal)
  | evaluate lp _ o limit => exact h.after (Session.evaluate_keeps hp.wellFormed lp o limit)
  | train hlp _ o seed => exact h.after (Session.trainSeeded_keeps hp hs hF hlp o seed)

theorem Sound.run (h : x.Sound p F) (hp : p.Checked) (hs : p.Stochastic) (hF : p.Realistic F)
    (hrun : Relation.ReflTransGen Step x y) : y.Sound p F := by
  induction hrun with
  | refl => exact h
  | tail _ hstep ih => exact ih.step hp hs hF hstep

/-- What is reached from a prepared problem is sound. -/
theorem sound_of_reached (hp : p.WellFormed) (hs : p.Stochastic) (hF : p.Realistic F)
    (hprepare : Multistage.prepare.on p = (.ok (), P)) (source : γ)
    (hrun : Relation.ReflTransGen Step { session := Session.new P source, workers := [] } x) :
    x.Sound p F := by
  obtain ⟨htrained, hchecked, -⟩ := (Multistage.prepare_trained hp p rfl).1 () P hprepare
  have hstart : Sound (γ := γ) p F { session := Session.new P source, workers := [] } :=
    ⟨⟨htrained, fun _ hb => absurd hb (List.not_mem_nil)⟩, fun _ hw => absurd hw (List.not_mem_nil)⟩
  exact hstart.run hchecked hs hF hrun

/-- However the passes of any number of workers interleave, no stored cut is anywhere worse than the
exact cost-to-go, and no recorded bound is worse than the optimal value. -/
theorem reached_valid (hp : p.WellFormed) (hs : p.Stochastic) (hb : p.Bounded)
    (hprepare : Multistage.prepare.on p = (.ok (), P)) (source : γ)
    (hrun : Relation.ReflTransGen Step { session := Session.new P source, workers := [] } x) :
    (∀ t < p.horizon, ∀ k ∈ p.reachableStates t,
      ∀ c ∈ x.session.simulation.problem.cutsAt t k, p.Valid t k c) ∧
      ∀ b ∈ x.session.record.bounds, p.IsBound b := by
  have hsound := sound_of_reached hp hs hb.realistic hprepare source hrun
  exact ⟨fun t ht k hk c hc => hsound.session.trained.cuts_valid hp ht hk hc,
    fun b hmem => (hsound.session.bounds b hmem).isBound⟩

end

end Crew

/-! ### Two workers at odds

Up to four are bought at a half each; then one or three are missing, and each that is short costs
one. Two workers refine at the stocks of zero and of one, and their steps alternate. -/

namespace Problems

def purchase : Stage ℚ :=
  { Stage.empty "0_0" (.int 0) (.int 0) .minimize with
    columns := [⟨"stock", .fin 0, .fin 4, 1 / 2⟩, ⟨"stock_local_copy", .fin 0, .fin 4, 0⟩]
    states := [0]
    copies := [1]
    initial := [.null] }

def demand : Stage ℚ :=
  { Stage.empty "1_0" (.int 1) (.int 0) .minimize with
    columns := [⟨"stock", .fin 0, .fin 4, 0⟩, ⟨"stock_local_copy", .fin 0, .fin 4, 0⟩,
    ⟨"short", .fin 0, .above, 1⟩]
    rows := [⟨0, "demand", [(1, 1), (2, 1)], .atLeast, 0⟩]
    issued := 1
    states := [0]
    copies := [1]
    initial := [.null]
    random := [.single 0 [1, 3]]
    sampleCount := 2 }

def shortage : Multistage ℚ :=
  { outline := { horizon := .int 2, bound := .int 0, discount := .int 1, pruning := true }
    horizon := 2
    sense := .minimize
    discount := 1
    pruning := true
    chain := Chain.trivial 2
    markovian := false
    measures := [.neutral, .neutral]
    riskAverse := false
    models := [[purchase], [demand]]
    prepared := false
    lastBound := none
    provenance := none }

theorem mem_reachableStates_shortage {t k : ℕ} : k ∈ shortage.reachableStates t ↔
    t < 2 ∧ k = 0 := by
  rw [Multistage.mem_reachableStates]
  match t with
  | 0 | 1 => cases k <;> simp [shortage, Chain.trivial]
  | t + 2 => simp [shortage, Chain.trivial]

theorem stageAt_shortage {t k : ℕ} {m : Stage ℚ} (h : shortage.stageAt t k = some m) :
    t = 0 ∧ m = purchase ∨ t = 1 ∧ m = demand := by
  match t with
  | 0 => cases k <;> simp_all [shortage, Multistage.stageAt]
  | 1 => cases k <;> simp_all [shortage, Multistage.stageAt]
  | t + 2 => simp [shortage, Multistage.stageAt] at h

theorem purchase_wellFormed : purchase.WellFormed where
  terms := by decide
  ids := by decide
  issued := by decide
  random := by simp [purchase, Stage.empty]
  states := by decide
  noise := by decide
  copies := by decide
  unlinked := ⟨rfl, rfl, rfl⟩
  noCostToGo := ⟨rfl, rfl⟩

theorem demand_wellFormed : demand.WellFormed where
  terms := by decide
  ids := by decide
  issued := by decide
  random := by simp [demand, RandomRhs.rows]
  states := by decide
  noise := by decide
  copies := by decide
  unlinked := ⟨rfl, rfl, rfl⟩
  noCostToGo := ⟨rfl, rfl⟩

theorem shortage_wellFormed : shortage.WellFormed where
  models t k m _ hm := by
    obtain ⟨-, rfl⟩ | ⟨-, rfl⟩ := stageAt_shortage hm
    · exact ⟨purchase_wellFormed, rfl⟩
    · exact ⟨demand_wellFormed, rfl⟩
  reachable t _ k hk := by
    obtain ⟨ht, rfl⟩ := mem_reachableStates_shortage.mp hk
    match t with
    | 0 => exact ⟨purchase, rfl⟩
    | 1 => exact ⟨demand, rfl⟩
  start := ⟨by decide, mem_reachableStates_shortage.mpr ⟨by decide, rfl⟩⟩
  closed t j k ht hj h := by
    have ht : t + 1 < 2 := ht
    obtain ⟨-, rfl⟩ := mem_reachableStates_shortage.mp hj
    obtain rfl : t = 0 := by omega
    refine mem_reachableStates_shortage.mpr ⟨ht, ?_⟩
    by_contra hk
    obtain ⟨i, rfl⟩ := Nat.exists_eq_succ_of_ne_zero hk
    simp [Multistage.transitionAt, shortage, Chain.trivial] at h
  unprepared := rfl

theorem shortage_stochastic : shortage.Stochastic where
  samples t k m _ hm := by
    obtain ⟨-, rfl⟩ | ⟨-, rfl⟩ := stageAt_shortage hm
    · exact ⟨⟨by decide +kernel, by decide +kernel⟩, rfl⟩
    · exact ⟨⟨by decide +kernel, by decide +kernel⟩, rfl⟩
  moves t j ht hj := by
    have ht : t + 1 < 2 := ht
    obtain ⟨-, rfl⟩ := mem_reachableStates_shortage.mp hj
    obtain rfl : t = 0 := by omega
    exact ⟨by decide +kernel, by decide +kernel⟩

private theorem nonneg_of_allows {c : Column ℚ} (h : c.lower.effective = .fin 0) {v : ℚ}
    (hv : c.Allows v) :
    0 ≤ v := by
  have hlower := hv.1
  rw [h] at hlower
  simpa [Limit.leNumber] using hlower

theorem shortage_costly : shortage.Costly where
  discount := by decide +kernel
  objective t k m s y _ hm hy := by
    obtain ⟨-, rfl⟩ | ⟨-, rfl⟩ := stageAt_shortage hm
    · have hcolumns : ∀ c ∈ purchase.columns, 0 ≤ c.cost ∧ c.lower.effective = .fin 0 := by
          decide +kernel
      exact Program.objective_nonneg (P := purchase.program) (by decide +kernel)
        (fun c hc => ⟨(hcolumns c hc).1, fun v => nonneg_of_allows (hcolumns c hc).2⟩) hy.within
    · have hcolumns : ∀ c ∈ demand.columns, 0 ≤ c.cost ∧ c.lower.effective = .fin 0 := by
          decide +kernel
      exact Program.objective_nonneg (P := demand.program) (by decide +kernel)
        (fun c hc => ⟨(hcolumns c hc).1, fun v => nonneg_of_allows (hcolumns c hc).2⟩) hy.within

theorem shortage_bounded : shortage.Bounded := by
  refine shortage_costly.bounded shortage_wellFormed shortage_stochastic fun b hb => ?_
  obtain rfl : (0 : ℚ) = b := Except.ok.inj hb
  exact le_rfl

/-- The optima of the programs that come up, told apart by their rows; a wrong one would not be
accepted. -/
def shortageOptimum : Solver ℚ := fun P =>
  match P.rows with
  | [demand, link] =>
    if link.relation = .equal then
      if link.rhs < demand.rhs then
        let short := demand.rhs - link.rhs
        .optimal { point := [0, link.rhs, short], value := short, duals := [1, -1] }
      else .optimal { point := [0, link.rhs, 0], value := 0, duals := [0, 0] }
    else .optimal { point := [1, 0, 1], value := 3 / 2, duals := [0, 1] }
  | _ => .gaveUp

def shortageStart : Crew Unit ℚ :=
  { session := Session.new (Multistage.prepare.on shortage).2 (), workers := [] }

theorem shortage_prepared : Multistage.prepare.on shortage =
    (.ok (), shortageStart.session.simulation.problem) :=
  Run.on_of_isOk (by decide +kernel)

/-- Two workers whose steps alternate, and then a bound. -/
def shortageRun : Crew Unit ℚ :=
  let lp := shortageOptimum.verified
  let hired := (shortageStart.hire [[0]] [some []]).hire [[1]] [some []]
  let done := [0, 1, 1, 0, 0, 1].foldl (Crew.work lp) hired
  done.after do Session.keep (← Session.onProblem (Multistage.computeBound lp)) [] .none

theorem shortageRun_reached : Relation.ReflTransGen Crew.Step shortageStart shortageRun := by
  have hlp := shortageOptimum.verified_exact
  have hhired : Relation.ReflTransGen Crew.Step shortageStart
      ((shortageStart.hire [[0]] [some []]).hire [[1]] [some []]) :=
    .tail (.single (.hire _ _ _)) (.hire _ _ _)
  exact .tail (hhired.trans (Crew.reached_of_turns hlp _ _)) (.measure hlp _ [] .none)

end Problems

theorem Crew.reached_valid_shortage :
    (Problems.shortageRun.session.simulation.problem.cutsAt 0 0).map
    (fun c => (c.intercept, c.slopes)) =
      [(2, [-1]), (3 / 2, [-1 / 2])] ∧
    Problems.shortageRun.session.record.bounds = [3 / 2] ∧
    (∀ t < Problems.shortage.horizon, ∀ k ∈ Problems.shortage.reachableStates t,
      ∀ c ∈ Problems.shortageRun.session.simulation.problem.cutsAt t k,
      Problems.shortage.Valid t k c) ∧
    ∀ b ∈ Problems.shortageRun.session.record.bounds, Problems.shortage.IsBound b :=
  ⟨by decide +kernel, by decide +kernel,
    Crew.reached_valid Problems.shortage_wellFormed Problems.shortage_stochastic
    Problems.shortage_bounded Problems.shortage_prepared () Problems.shortageRun_reached⟩

end Recourse
