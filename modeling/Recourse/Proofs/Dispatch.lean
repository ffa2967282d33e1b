import Recourse.Proofs.Calls
import Recourse.Proofs.Crew
import Recourse.Proofs.Driver
import Recourse.Proofs.Records
import Recourse.Proofs.Sampling

/-! Calls of training as runs of the driver. The passes of an iteration follow one another there:
the worker of the first takes all of its turns, then the next one does, and if one fails, the others
are sent away. So what is known of the driver holds after calls that answer and after those that
fail where a model is solved. -/

namespace Recourse

namespace Driver

open Run (Coupled Keeps Triple TripleOn)

variable {γ α : Type} [Scalar α] [Numeral α] [Source γ α] [Inference α] {lp : Solver α}
  {d d₀ : Driver α} {m : ℤ}

theorem steps_of_advances {P P' : Multistage α} {w w' : Worker α}
    (h : Relation.ReflTransGen (Worker.Advances lp) (w, P) (w', P')) (d : Driver α)
    (after : List (Worker α)) :
    Relation.ReflTransGen (Step γ) { d with problem := P, workers := w :: after }
      { d with problem := P', workers := w' :: after } :=
  h.lift (fun z : Worker α × Multistage α => { d with problem := z.2, workers := z.1 :: after })
    fun _ _ hstep => .work [] _ rfl hstep

theorem steps_to_idle (d : Driver α) {n : ℕ} (hn : d.problem.horizon - 1 = n)
    (walks : List (Trajectory α)) :
    Relation.ReflTransGen (Step γ) { d with workers := walks.map (Worker.along n), failed := true }
      { d with workers := [], failed := true } := by
  subst hn
  induction walks with
  | nil => exact .refl
  | cons v walks ih => exact .head (.cancel [] (v := v) _ rfl) ih

/-- A driver that has come to rest, where something has failed. -/
def Broken (γ : Type) [Source γ α] (d₀ : Driver α) (P : Multistage α) : Prop :=
  P.prepared = true ∧ ∃ d, Relation.ReflTransGen (Step γ) d₀ d ∧ d.workers = [] ∧ d.problem = P ∧
    d.failed = true

theorem Broken.after {P : Multistage α} (h : Broken γ d P)
    (hsteps : Relation.ReflTransGen (Step γ) d₀ d) :
    Broken γ d₀ P := by
  obtain ⟨hP, d', hd', h⟩ := h
  exact ⟨hP, d', hsteps.trans hd', h⟩

omit [Inference α] in
theorem refineAlong_frame (lp : Solver α) (v : Trajectory α) (F : Multistage α) :
    Keeps (fun P => P.prepared = true ∧ P.frame = F) (Multistage.refineAlong lp v) :=
  Coupled.self_iff.mp (((Multistage.elementary_frame F).twins lp).refineAlong v)

/-- Passes one after the other are workers one after the other. Behind them others may wait. -/
theorem steps_of_passes (lp : Solver α) (walks rest : List (Trajectory α)) (d : Driver α)
    (hprepared : d.problem.prepared = true)
    (hworkers : d.workers = (walks ++ rest).map (Worker.along (d.problem.horizon - 1))) :
    (∀ P', (walks.forM (Multistage.refineAlong lp)).on d.problem = (.ok (), P') →
      Relation.ReflTransGen (Step γ) d
        { d with
          problem := P', workers := rest.map (Worker.along (P'.horizon - 1))
          finished := d.finished + walks.length }) ∧
    ∀ e P', (walks.forM (Multistage.refineAlong lp)).on d.problem = (.error e, P') → e.OfWork →
    Broken γ d P' := by
  induction walks generalizing d with
  | nil =>
    refine ⟨fun P' h => ?_, fun e P' h => ?_⟩ <;> cases h
    obtain ⟨problem, workers, asked, finished, failed⟩ := d
    dsimp only at hworkers
    subst hworkers
    exact .refl
  | cons v walks ih =>
    obtain ⟨problem, workers, asked, finished, failed⟩ := d
    dsimp only at hprepared hworkers ih ⊢
    subst hworkers
    obtain ⟨hframe, hframe'⟩ := refineAlong_frame lp v problem.frame problem ⟨hprepared, rfl⟩
    -- once the first pass is through, its worker leaves and the others go on
    let next (Q : Multistage α) : Driver α :=
      { problem := Q, workers := (walks ++ rest).map (Worker.along (Q.horizon - 1)), asked
        finished := finished + 1, failed }
    have hfirst {Q : Multistage α} (h : (Multistage.refineAlong lp v).on problem = (.ok (), Q)) :
        Relation.ReflTransGen (Step γ)
          { problem, workers := (v :: walks ++ rest).map (Worker.along (problem.horizon - 1))
            asked, finished, failed }
          (next Q) := by
      have hhorizon : Q.horizon = problem.horizon := Multistage.horizon_of_frame (hframe () Q h).2
      dsimp only [next]
      rw [hhorizon]
      have hadvances := Worker.advances_of_refineFrom h
      exact (steps_of_advances hadvances { problem, workers := [], asked, finished, failed } _).tail
        (.finish [] _ rfl rfl)
    have hrest {Q : Multistage α} (h : (Multistage.refineAlong lp v).on problem = (.ok (), Q)) :=
      ih (next Q) (hframe () Q h).1 rfl
    refine ⟨fun P' h => ?_, fun e P' h he => ?_⟩
    · obtain ⟨_, Q, hpass, h⟩ := Run.exists_of_bind h
      have hsteps := (hfirst hpass).trans ((hrest hpass).1 P' h)
      rwa [Nat.add_assoc, Nat.add_comm 1] at hsteps
    · rcases Run.error_of_bind h with h | ⟨_, Q, hpass, h⟩
      · obtain ⟨⟨w, Q⟩, hadvances, hstop⟩ := Worker.stops_of_refineFrom h
        have hhorizon : P'.horizon = problem.horizon :=
          Multistage.horizon_of_frame (hframe' e P' h).2
        have hlost := (steps_of_advances (γ := γ) hadvances
          { problem, workers := [], asked, finished, failed }
          ((walks ++ rest).map (Worker.along (problem.horizon - 1)))).tail (.lose [] _ rfl hstop he)
        have hidle := steps_to_idle (γ := γ)
          { problem := P', workers := [], asked, finished, failed }
          (congrArg (· - 1) hhorizon) (walks ++ rest)
        exact ⟨(hframe' e P' h).1, _, hlost.trans hidle, rfl, rfl, rfl⟩
      · exact ((hrest hpass).2 e P' h he).after (hfirst hpass)

/-- A session that a driver has come to, with no more failures than at first and with workers before
their passes along some trajectories. Besides the trajectories on record some others were asked
for. -/
def Serves (d₀ : Driver α) (unrecorded : ℤ) (walks : List (Trajectory α)) (x : Session γ α) :
    Prop :=
  x.simulation.problem.prepared = true ∧ ∃ d, Relation.ReflTransGen (Step γ) d₀ d ∧
    d.workers = walks.map (Worker.along (d.problem.horizon - 1)) ∧
    d.problem = x.simulation.problem ∧
    d.failed = d₀.failed ∧ (d.asked : ℤ) = (x.record.values.map List.length).sum + unrecorded

variable {x y : Session γ α}

theorem Serves.of_eq {walks : List (Trajectory α)} (h : Serves d₀ m walks x)
    (hproblem : y.simulation.problem = x.simulation.problem)
    (hvalues : y.record.values = x.record.values) :
    Serves d₀ m walks y := by
  unfold Serves
  rwa [hproblem, hvalues]

theorem Serves.broken (h : Serves d₀ m [] x) : Broken γ d₀ x.simulation.problem := by
  obtain ⟨hprepared, d, hsteps, hidle, hproblem, -⟩ := h
  exact ⟨hprepared, _, hsteps.tail (.fail d), hidle, hproblem, rfl⟩

/-- From where a driver has come to rest, another call may start. -/
theorem Broken.serves (h : Broken γ d₀ x.simulation.problem) :
    ∃ d m, Relation.ReflTransGen (Step γ) d₀ d ∧ d.failed = true ∧ Serves d m [] x := by
  obtain ⟨hprepared, d, hsteps, hidle, hproblem, hfailed⟩ := h
  refine ⟨d, d.asked - (x.record.values.map List.length).sum, hsteps, hfailed, hprepared, d, .refl,
    hidle, hproblem, rfl, ?_⟩
  omega

omit [Scalar α] [Numeral α] [Source γ α] [Inference α] in
theorem onProblem_on {β : Type} {act : Run α (Multistage α) β} {kind : Fault α → Prop}
    {Q : β → Session γ α → Prop} {E : Session γ α → Prop}
    (hok : ∀ b P, act.on x.simulation.problem = (.ok b, P) →
      Q b { x with simulation := { x.simulation with problem := P } })
    (herror : ∀ e P, act.on x.simulation.problem = (.error e, P) → kind e →
      E { x with simulation := { x.simulation with problem := P } }) :
    TripleOn kind (· = x) (Session.onProblem act) Q E := by
  rintro _ rfl
  refine ⟨fun b y hrun => ?_, fun e y hrun he => ?_⟩ <;> obtain ⟨hr, rfl⟩ := Prod.mk.inj hrun
  · exact hok b _ (Prod.ext hr rfl)
  · exact herror e _ (Prod.ext hr rfl) he

theorem walk_serves (hα : Numeral.Faithful α) {o : TrainingPlan α} {w : Datum α}
    (hx : Serves d₀ m [] x) (hw : Multistage.usefulWorkers o.steps o.workers = .ok w) (seed : ℕ)
    (limit : Option ℕ) :
    TripleOn Fault.OfWork (· = x)
      (Session.onProblem (Multistage.walkJobs lp (γ := γ)
        (fun _ => Guide.random) seed o.steps w limit))
      (fun walks y => y.record = x.record ∧ Serves d₀ (m + walks.length) walks y)
      fun y => Broken γ d₀ y.simulation.problem := by
  obtain ⟨hprepared, d, hsteps, hidle, hproblem, hfailed, hasked⟩ := hx
  have hpools := Multistage.walkJobs_samePools
    (γ := γ) hprepared lp seed o.steps w limit _ (.refl _)
  refine onProblem_on (fun walks P hrun => ?_) fun e P hrun _ => ?_
  · have hP := hpools.1 _ _ hrun
    obtain ⟨chunks, hchunks, -⟩ := Multistage.walked_of_walkJobs hrun
    obtain ⟨n, hn⟩ := Multistage.exists_int_of_allocateData hchunks
    obtain rfl := Multistage.limit_of_walkJobs hrun
    rw [← hproblem] at hrun
    refine ⟨rfl, (Multistage.prepared_of_frame hP.frame).trans hprepared, _,
      hsteps.tail (.hire d hidle hn hw hrun), rfl, rfl, hfailed, ?_⟩
    rw [← length_of_walkJobs hα hn hw hrun]
    dsimp only
    omega
  · have hP := hpools.2 _ _ hrun
    rw [← hproblem] at hrun
    exact ⟨(Multistage.prepared_of_frame hP.frame).trans hprepared, _,
      hsteps.tail (.stumble d hrun), hidle, rfl, rfl⟩

/-- The workers make their passes one after the other. Where the passes break off, the workers that
have not begun are sent away. -/
theorem passes_serve {walks : List (Trajectory α)} (limit : Option ℕ) (hx : Serves d₀ m walks x) :
    TripleOn Fault.OfWork (· = x) (Session.onProblem (Multistage.refineAll lp walks limit))
      (fun _ y => y.record = x.record ∧ Serves d₀ m [] y)
      fun y => Broken γ d₀ y.simulation.problem := by
  obtain ⟨hprepared, d, hsteps, hworkers, hproblem, hfailed, hasked⟩ := hx
  have hkeeps (walks : List (Trajectory α)) :
      Keeps (fun P => P.prepared = true ∧ P.frame = x.simulation.problem.frame)
        (walks.forM (Multistage.refineAlong lp)) := Triple.forM fun v _ => refineAlong_frame lp v _
  obtain ⟨rest, hrest⟩ : ∃ rest,
    leading limit walks ++ rest = walks := exists_leading_append limit walks
  rw [← hrest] at hworkers
  obtain ⟨hok, herror⟩ := steps_of_passes (γ := γ) lp (leading limit walks) rest d
    (hproblem ▸ hprepared) hworkers
  rw [hproblem] at hok herror
  refine onProblem_on (fun _ P hrun => ?_) fun e P hrun he => ?_
  · obtain ⟨_, Q, hpasses, hrun⟩ := Run.exists_of_bind hrun
    rw [Run.breakOff_on] at hrun
    cases limit with
    | some n => cases hrun
    | none =>
    cases hrun
    obtain rfl : rest = [] := by simpa [leading] using hrest
    exact ⟨rfl, ((hkeeps _ _ ⟨hprepared, rfl⟩).1 _ _ hpasses).1, _, hsteps.trans (hok _ hpasses),
      rfl, rfl, hfailed,
      hasked⟩
  · rcases Run.error_of_bind hrun with hpasses | ⟨_, Q, hpasses, hrun⟩
    · exact (herror e P hpasses he).after hsteps
    · rw [Run.breakOff_on] at hrun
      obtain rfl : Q = P := congrArg Prod.snd hrun
      have hidle := steps_to_idle (γ := γ)
        { d with problem := Q, finished := d.finished + (leading limit walks).length }
        rfl rest
      exact ⟨((hkeeps _ _ ⟨hprepared, rfl⟩).1 _ _ hpasses).1, _,
        ((hsteps.trans (hok _ hpasses)).tail (.fail _)).trans hidle, rfl, rfl, rfl⟩

theorem bound_serves (hx : Serves d₀ m [] x) :
    TripleOn Fault.OfWork (· = x) (Session.onProblem (Multistage.computeBound lp))
      (fun _ y => y.record = x.record ∧ Serves d₀ m [] y)
      fun y => Broken γ d₀ y.simulation.problem := by
  obtain ⟨hprepared, d, hsteps, hidle, hproblem, hfailed, hasked⟩ := hx
  have hP := Keeps.iff_on.mp (Multistage.computeBound_samePools lp) x.simulation.problem (.refl _)
  have hserves : Serves d₀ m [] { x with simulation :=
      { x.simulation with problem := ((Multistage.computeBound lp).on x.simulation.problem).2 } } :=
    ⟨(Multistage.prepared_of_frame hP.frame).trans hprepared, _, hsteps.tail (.bound lp d),
      hidle, by rw [hproblem], hfailed,
      hasked⟩
  refine onProblem_on (fun b P hrun => ?_) fun e P hrun _ => ?_ <;> rw [hrun] at hserves
  · exact ⟨rfl, hserves⟩
  · exact hserves.broken

theorem breakOff_serves {w : Datum α} (struck : Bool) :
    Triple (fun y => Serves d₀ m [] y ∧ y.record.workers = w)
      (Run.breakOff struck : Run α (Session γ α) Unit)
      (fun _ y => Serves d₀ m [] y ∧ y.record.workers = w)
      fun y => Broken γ d₀ y.simulation.problem :=
  Triple.breakOff (fun _ _ hy => hy) fun _ _ hy => hy.1.broken

/-- Up to its bound, an iteration is a run of the driver. -/
theorem improve_serves (hα : Numeral.Faithful α) {o : TrainingPlan α} (signal : Signal)
    (hx : Serves d₀ m [] x)
    (hw : Multistage.usefulWorkers o.steps o.workers = .ok x.record.workers) :
    TripleOn Fault.OfWork (· = x) (Session.improve lp o signal)
      (fun r y => y.record = x.record ∧ Serves d₀ (m + r.2.length) [] y)
      fun y => Broken γ d₀ y.simulation.problem := by
  have hdraw : Keeps (fun y : Session γ α => y.record = x.record ∧ Serves d₀ m [] y)
      (Session.onSource (Source.draw Multistage.seedLimit)) :=
    Keeps.iff_on.mpr fun _ hy => ⟨hy.1, hy.2.of_eq rfl rfl⟩
  refine TripleOn.bind (TripleOn.of_triple
    (hdraw.conseq (fun y hy => by subst hy; exact ⟨rfl, hx⟩) (fun _ _ hy => hy)
    fun _ hy => hy.2.broken)) fun seed y hy => ?_
  rw [Run.bind_ok _ (Run.get_on y), hy.1]
  refine TripleOn.bind (walk_serves hα hy.2 hw seed _) (fun walks z hz => ?_) y rfl
  refine TripleOn.bind (passes_serve _ hz.2) (fun _ u hu => ?_) z rfl
  refine TripleOn.bind (bound_serves hu.2) (fun b => TripleOn.of_triple ?_) u rfl
  have hrecord : u.record = x.record := hu.1.trans (hz.1.trans hy.1)
  apply Triple.bind (Q := fun _ v => v.record = u.record ∧ Serves d₀ (m + walks.length) [] v)
  · exact Triple.breakOff (fun _ _ hv => hv) fun _ _ hv => hv.2.broken
  · refine fun _ => Triple.pure fun v hv => ?_
    rw [List.length_map]
    exact ⟨hv.1.trans hrecord, hv.2⟩

theorem keep_serves {bound : α} {values : List α} {w : Datum α} (signal : Signal) :
    Triple (fun y : Session γ α => Serves d₀ (m + values.length) [] y ∧ y.record.workers = w)
      (Session.keep bound values signal)
      (fun _ y => Serves d₀ m [] y ∧ y.record.workers = w)
      fun y => Broken γ d₀ y.simulation.problem := by
  apply Triple.bind (Q := fun _ y => Serves d₀ (m + values.length) [] y ∧ y.record.workers = w)
  · exact Triple.modify fun y hy => ⟨hy.1.of_eq rfl rfl, hy.2⟩
  refine fun _ => Triple.bind (breakOff_serves _) fun _ => ?_
  apply Triple.bind (Q := fun _ y => Serves d₀ (m + values.length) [] y ∧ y.record.workers = w)
  · rintro y ⟨⟨hprepared, d, hsteps, hidle, hproblem, hfailed, hasked⟩, hy⟩
    refine ⟨fun _ z hrun => ?_, fun e z hrun => ?_⟩ <;> cases hrun
    exact ⟨⟨hprepared, _, hsteps.tail (.keep (some bound) d),
      hidle, by rw [hproblem], hfailed, hasked⟩, hy⟩
  intro _
  apply Triple.bind (breakOff_serves _)
  intro _
  apply Triple.bind (Q := fun _ y => Serves d₀ m [] y ∧ y.record.workers = w)
  · apply Triple.modify
    rintro y ⟨⟨hprepared, d, hsteps, hidle, hproblem, hfailed, hasked⟩, hy⟩
    refine ⟨⟨hprepared, d, hsteps, hidle, hproblem, hfailed, ?_⟩, hy⟩
    rw [List.map_append, List.sum_append, List.map_singleton, List.sum_singleton, hasked]
    omega
  · exact fun _ => breakOff_serves _

theorem count_serves (hα : Numeral.Faithful α) {c : TrainingCall α} (g : Standing α)
    (signal : Signal) :
    TripleOn Fault.OfWork
      (fun x : Session γ α => Serves d₀ m [] x ∧
        Multistage.usefulWorkers c.plan.steps c.plan.workers = .ok x.record.workers)
      (Session.count c.solver c.plan g signal)
      (fun _ x => Serves d₀ m [] x ∧
        Multistage.usefulWorkers c.plan.steps c.plan.workers = .ok x.record.workers)
      fun x => Broken γ d₀ x.simulation.problem := by
  rintro x ⟨hx, hw⟩
  refine TripleOn.bind (improve_serves hα signal hx hw) (fun r y hy => ?_) x rfl
  obtain ⟨bound, values⟩ := r
  let Kept : Session γ α → Prop := fun z => Serves d₀ m [] z ∧ z.record.workers = x.record.workers
  have hnext {β : Type} {act : Run α (Session γ α) β} (hact : Keeps Kept act) :
      Triple Kept act (fun _ => Kept) fun z => Broken γ d₀ z.simulation.problem :=
    hact.conseq (fun _ hz => hz) (fun _ _ hz => hz) fun _ hz => hz.1.broken
  have hmodify {change : Session γ α → Session γ α}
      (hchange : ∀ z, (change z).simulation.problem = z.simulation.problem ∧
        (change z).record.values = z.record.values ∧ (change z).record.workers = z.record.workers) :
      Keeps Kept (modify change : Run α (Session γ α) Unit) := by
    apply Triple.modify
    intro z hz
    obtain ⟨hproblem, hvalues, hworkers⟩ := hchange z
    exact ⟨hz.1.of_eq hproblem hvalues, hworkers.trans hz.2⟩
  have hkeep :
      Triple (fun z => Serves d₀ (m + values.length) [] z ∧ z.record.workers = x.record.workers)
      (Session.keep (γ := γ) bound values signal) (fun _ => Kept) fun z =>
      Broken γ d₀ z.simulation.problem :=
    keep_serves signal
  refine TripleOn.of_triple (Triple.bind hkeep fun _ => ?_) y ⟨hy.2, congrArg Record.workers hy.1⟩
  refine Triple.bind (hnext Keeps.ofExcept) fun f => Triple.bind (hnext Keeps.ofExcept) fun g => ?_
  refine Triple.bind (hnext (hmodify fun _ => ⟨rfl, rfl, rfl⟩)) fun _ =>
    Triple.bind (breakOff_serves _) fun _ => ?_
  apply Triple.get_bind_any
  intro z
  refine Triple.bind (hnext (hmodify fun _ => ⟨rfl, rfl, rfl⟩)) fun _ =>
    Triple.bind (breakOff_serves _) fun _ => ?_
  apply Triple.pure
  rintro u ⟨hu, hworkers⟩
  exact ⟨hu, hworkers ▸ hw⟩

theorem route_serves (hα : Numeral.Faithful α) (d₀ : Driver α) (m : ℤ) (c : TrainingCall α) :
    Session.Route (γ := γ) Fault.OfWork c (Serves d₀ m [])
      (fun x => Serves d₀ m [] x ∧ Multistage.usefulWorkers c.plan.steps c.plan.workers =
        .ok x.record.workers)
      fun x => Broken γ d₀ x.simulation.problem where
  outside := fun _ _ hxy hx => hx.of_eq hxy.problem hxy.values
  within := fun _ _ hxy hworkers hx => ⟨hx.1.of_eq hxy.problem hxy.values, hworkers ▸ hx.2⟩
  cut := fun _ _ hxy hx => hxy.problem ▸ hx
  fault := fun _ hx => hx.broken
  interrupted := .interrupted
  prepare := Keeps.iff_on.mpr fun x hx =>
  hx.of_eq (congrArg Prod.snd (Multistage.prepare_on_prepared hx.1)) rfl
  enter := fun _ hx hworkers => ⟨hx, hworkers⟩
  leave := fun _ hx => hx.1
  count := fun g i => count_serves hα g _
  evaluate := fun o limit => Keeps.iff_on.mpr fun x hx => by
    obtain ⟨⟨hprepared, d, hsteps, hidle, hproblem, hfailed, hasked⟩, hworkers⟩ := hx
    have hkept := Session.evaluate_keeps_of (γ := γ)
      (Multistage.walkTwins_samePools hprepared c.solver) o limit
    have hP := Keeps.iff_on.mp hkept x (.refl _)
    exact ⟨⟨(Multistage.prepared_of_frame hP.frame).trans hprepared, _,
      hsteps.tail (.evaluate c.solver o limit x d hproblem.symm), hidle, rfl, hfailed, hasked⟩,
      hworkers⟩

/-- A call that no interrupt disturbs is a run of the driver in which as many trajectories are asked
for as there are values on record. One that fails in its work is a run of the driver too, and so is
one that is cut off. -/
theorem trainSeeded_serves (hα : Numeral.Faithful α) (d₀ : Driver α) (m : ℤ) (c : TrainingCall α) :
    TripleOn Fault.OfWork (Serves (γ := γ) d₀ m []) (Session.trainSeeded c.solver c.plan c.seed)
      (fun ending x => Serves d₀ m [] x ∨ ending = .interrupted ∧ c.Disturbed ∧
        Broken γ d₀ x.simulation.problem)
      fun x => Broken γ d₀ x.simulation.problem :=
  (route_serves hα d₀ m c).trainSeeded

theorem serves_new {P : Multistage α} (hP : P.prepared = true) (source : γ) :
    Serves (new P) 0 [] (Session.new P source) :=
  ⟨hP, new P, .refl, rfl, rfl, rfl, rfl⟩

/-! ### Any number of calls -/

/-- Whether a call answers and no interrupt cuts it off. It may end on request. -/
def Through (c : TrainingCall α) (r : Except (Fault α) Ending) : Prop :=
  ∃ ending, r = .ok ending ∧ (ending = .interrupted → ¬ c.Disturbed)

/-- Calls that answer or fail in their work are a run of the driver. It fails only if one of them
does or is cut off, and if none is, it is on record what was asked for. -/
theorem answers_serve (hα : Numeral.Faithful α) (calls : List (TrainingCall α))
    (hx : Serves d₀ m [] x) (hwork : ∀ e, .error e ∈ (Session.answers calls x).1 → e.OfWork) :
    ∃ d, Relation.ReflTransGen (Step γ) d₀ d ∧ d.workers = [] ∧
      d.problem = (Session.answers calls x).2.simulation.problem ∧
      (List.Forall₂ Through calls (Session.answers calls x).1 → d.failed = d₀.failed ∧
        (d.asked : ℤ) = ((Session.answers calls x).2.record.values.map List.length).sum + m) := by
  induction calls generalizing d₀ m x with
  | nil =>
    obtain ⟨-, d, hsteps, hidle, hproblem, hfailed, hasked⟩ := hx
    exact ⟨d, hsteps, hidle, hproblem, fun _ => ⟨hfailed, hasked⟩⟩
  | cons c calls ih =>
    rcases hrun : (Session.trainSeeded c.solver c.plan c.seed).on x with ⟨r, y⟩
    have hanswers : Session.answers (c :: calls) x =
        (r :: (Session.answers calls y).1, (Session.answers calls y).2) := by
      simp only [Session.answers, hrun]
    rw [hanswers] at hwork ⊢
    rw [List.forall₂_cons]
    have hrest : ∀ e, .error e ∈ (Session.answers calls y).1 →
        e.OfWork := fun e he => hwork e (List.mem_cons_of_mem r he)
    -- where a call stops short, the driver comes to rest, and what follows is counted from there
    have hshort (hy : Broken γ d₀ y.simulation.problem) (hr : ¬ Through c r) :
        ∃ d, Relation.ReflTransGen (Step γ) d₀ d ∧ d.workers = [] ∧
          d.problem = (Session.answers calls y).2.simulation.problem ∧
          (Through c r ∧ List.Forall₂ Through calls (Session.answers calls y).1 →
          d.failed = d₀.failed ∧
            (d.asked : ℤ) = ((Session.answers calls y).2.record.values.map List.length).sum +
            m) := by
      obtain ⟨d', m', hsteps', -, hy⟩ := hy.serves
      obtain ⟨d, hsteps, hidle, hproblem, -⟩ := ih hy hrest
      exact ⟨d, hsteps'.trans hsteps, hidle, hproblem, fun h => absurd h.1 hr⟩
    obtain ⟨hok, herror⟩ := trainSeeded_serves hα d₀ m c x hx
    cases r with
    | ok ending =>
      rcases hok ending y hrun with hy | ⟨rfl, hdisturbed, hy⟩
      · obtain ⟨d, hsteps, hidle, hproblem, hthrough⟩ := ih hy hrest
        exact ⟨d, hsteps, hidle, hproblem, fun h => hthrough h.2⟩
      · apply hshort hy
        rintro ⟨ending, hending, hcalm⟩
        exact hcalm (Except.ok.inj hending).symm hdisturbed
    | error e =>
      apply hshort (herror e y hrun (hwork e List.mem_cons_self))
      rintro ⟨ending, hending, -⟩
      cases hending

/-- Whatever the passes of any number of iterations have come to when none is at work: the same
number of cuts has arrived at each reachable Markov state of a stage, and the stages before have
seen no more. At the first stage it is the number of passes that have run to their end, and as long
as nothing has failed, it is the number of trajectories at all stages. A pool that does not prune
stores all of its cuts. All of this holds after any calls that answer, be they interrupted or not,
or fail where they solve or draw; if all go through, the trajectories are those on record. -/
theorem cuts_of_passes (hα : Numeral.Faithful α) {P P₀ : Multistage α}
    (hprepare : Multistage.prepare.on P = (.ok (), P₀)) (hempty : P₀.Tally fun _ _ => 0) :
    (∀ x, Relation.ReflTransGen (Step γ) (new P₀) x → x.workers = [] →
      ∃ count, x.Balance P₀ count) ∧
    ∀ (source : γ) (c : TrainingCall α) (calls : List (TrainingCall α))
      (results : List (Except (Fault α) Ending))
      (y : Session γ α), Session.answers (c :: calls) (Session.new P source) = (results, y) →
      (∀ e, .error e ∈ results → e.OfWork) →
      ∃ x, Relation.ReflTransGen (Step γ) (new P₀) x ∧ x.workers = [] ∧
        x.problem = y.simulation.problem ∧
        (List.Forall₂ Through (c :: calls) results →
          x.failed = false ∧ x.asked = (y.record.values.map List.length).sum) := by
  have hP₀ : P₀.prepared = true := (Multistage.prepare_prepared P trivial).1 () P₀ hprepare
  refine ⟨fun x hsteps hidle => balance_of_steps hα hP₀ hempty hsteps hidle,
    fun source c calls results y hrun hwork => ?_⟩
  rw [Session.answers_of_prepare hprepare] at hrun
  have hserves := answers_serve hα (c :: calls) (serves_new hP₀ source)
  rw [hrun] at hserves
  obtain ⟨x, hsteps, hidle, hproblem, hthrough⟩ := hserves hwork
  refine ⟨x, hsteps, hidle, hproblem, fun h => ?_⟩
  obtain ⟨hfailed, hasked⟩ := hthrough h
  exact ⟨hfailed, Int.ofNat_inj.mp (hasked.trans (add_zero _))⟩

end Driver

/-! ### Two iterations of two passes

The steps of the first two passes alternate. In the second iteration one pass finds no solution. -/

namespace Problems

theorem shortage_loose : shortage.Loose where
  unprepared := rfl
  models t k m hm := by
    obtain ⟨-, rfl⟩ | ⟨-, rfl⟩ := stageAt_shortage hm
    · exact ⟨⟨⟨rfl, rfl, rfl⟩, ⟨rfl, rfl⟩, rfl, rfl⟩, fun _ => rfl, by decide⟩
    · exact ⟨⟨⟨rfl, rfl, rfl⟩, ⟨rfl, rfl⟩, rfl, rfl⟩, fun _ => rfl, by decide⟩

def pairPlan : TrainingPlan ℚ := { shortagePlan with steps := .int 2, workers := .int 2 }

def pairWalks (P : Multistage ℚ) : Except (Fault ℚ) (List (Trajectory ℚ)) × Multistage ℚ :=
  (Multistage.walkJobs stockOptimum (γ := ℕ) (fun _ => Guide.random) 0 pairPlan.steps (.int 2)).on P

def hirePair (x : Driver ℚ) : Driver ℚ :=
  let (walks, P) := pairWalks x.problem
  { x with
    problem := P, workers := (walks.toOption.getD []).map (Worker.along (P.horizon - 1))
    asked := x.asked + (2 : ℤ).toNat }

theorem hire_pair {x : Driver ℚ} (hidle : x.workers.isEmpty = true)
    (hwalks : (pairWalks x.problem).1.isOk = true) :
    Driver.Step ℕ x (hirePair x) := by
  have hok {r : Except (Fault ℚ) (List (Trajectory ℚ)) × Multistage ℚ} (h : r.1.isOk = true) :
      r = (.ok (r.1.toOption.getD []), r.2) := by
    rcases r with ⟨_ | _, _⟩
    · cases h
    · rfl
  exact .hire x (List.isEmpty_iff.mp hidle) (show pairPlan.steps.int? = some 2 from rfl) rfl
    (hok hwalks)

def passesStart : Driver ℚ := Driver.new shortageStart.session.simulation.problem

def pairOnce : Driver ℚ :=
  (((hirePair passesStart).turns? ([0, 1, 1, 0, 0, 1, 1, 0, 0, 0].map (stockOptimum, ·))).getD
    passesStart)

def pairTwice : Driver ℚ :=
  (((hirePair pairOnce).turns? ((stockOptimum, 0) :: (stockOptimum, 1) :: (fun _ => .gaveUp, 0) ::
    List.replicate 4 (stockOptimum, 0))).getD pairOnce)

theorem steps_pairOnce : Relation.ReflTransGen (Driver.Step ℕ) passesStart pairOnce := by
  have hturns : ((hirePair passesStart).turns?
      ([0, 1, 1, 0, 0, 1, 1, 0, 0, 0].map (stockOptimum, ·))).isSome = true := by
    decide +kernel
  obtain ⟨y, hy⟩ := Option.isSome_iff_exists.mp hturns
  rw [pairOnce, hy]
  exact .head (hire_pair rfl (by decide +kernel)) (Driver.steps_of_turns hy)

theorem steps_pairTwice : Relation.ReflTransGen (Driver.Step ℕ) passesStart pairTwice := by
  have hturns : ((hirePair pairOnce).turns?
      ((stockOptimum, 0) :: (stockOptimum, 1) :: (fun _ => .gaveUp, 0) ::
      List.replicate 4 (stockOptimum, 0))).isSome = true := by decide +kernel
  obtain ⟨y, hy⟩ := Option.isSome_iff_exists.mp hturns
  rw [pairTwice, hy]
  exact steps_pairOnce.trans (.head (hire_pair (by decide +kernel) (by decide +kernel))
    (Driver.steps_of_turns hy))

end Problems

open Problems in
theorem Driver.cuts_of_passes_pairs : pairOnce.asked = 2 ∧ pairOnce.failed = false ∧
    pairTwice.asked = 4 ∧
    pairTwice.finished = 3 ∧ pairTwice.failed = true ∧
    (∃ pool, pairOnce.problem.poolAt 0 0 = some pool ∧ pool.issued = 2) ∧
    (∃ pool, pairTwice.problem.poolAt 0 0 = some pool ∧ pool.issued = 3) ∧
    ∃ x, Relation.ReflTransGen (Driver.Step ℕ) passesStart x ∧
      x.problem = stepRun.simulation.problem ∧ x.finished = 5 := by
  obtain ⟨-, hempty⟩ :=
    Multistage.tally_of_prepare shortage_charted shortage_loose shortage_prepared
  obtain ⟨hbalance, hcalls⟩ := Driver.cuts_of_passes
    (γ := ℕ) Numeral.faithful_rat shortage_prepared hempty
  have hplace : 0 + 1 < shortageStart.session.simulation.problem.horizon ∧
      0 ∈ shortageStart.session.simulation.problem.reachableStates 0 := by decide +kernel
  have honce : pairOnce.asked = 2 ∧ pairOnce.failed = false := by decide +kernel
  have htwice : pairTwice.asked = 4 ∧ pairTwice.finished = 3 ∧ pairTwice.failed = true := by
    decide +kernel
  refine ⟨honce.1, honce.2, htwice.1, htwice.2.1, htwice.2.2, ?_, ?_, ?_⟩
  · obtain ⟨count, h⟩ := hbalance pairOnce steps_pairOnce (List.isEmpty_iff.mp (by decide +kernel))
    obtain ⟨pool, hpool, hcounts⟩ := h.pools 0 0 hplace.1 hplace.2
    exact ⟨pool, hpool, by rw [hcounts.issued, h.all honce.2, honce.1]⟩
  · obtain ⟨count, h⟩ := hbalance pairTwice steps_pairTwice
      (List.isEmpty_iff.mp (by decide +kernel))
    obtain ⟨pool, hpool, hcounts⟩ := h.pools 0 0 hplace.1 hplace.2
    exact ⟨pool, hpool, by rw [hcounts.issued, h.first, htwice.2.1]⟩
  · obtain ⟨failure, hshy⟩ := shyRun_eq
    have hanswers : Session.answers [shyCall, stepCall] shortageSession =
        ([.error (.unsolved failure), .ok .iterationLimit], stepRun) := by
      simp only [Session.answers, hshy, stepRun_eq]
    obtain ⟨x, hsteps, hidle, hproblem, -⟩ :=
      hcalls 0 shyCall [stepCall] _ stepRun hanswers fun e he => by
      rcases List.mem_cons.mp he with he | he
      · exact Except.error.inj he ▸ .unsolved failure
      · cases List.mem_singleton.mp he
    obtain ⟨count, h⟩ := hbalance x hsteps hidle
    obtain ⟨pool, hpool, hcounts⟩ := h.pools 0 0 hplace.1 hplace.2
    have hissued : (stepRun.simulation.problem.poolAt 0 0).map Pool.issued = some 5 := by
      decide +kernel
    rw [hproblem] at hpool
    rw [hpool, Option.map_some, hcounts.issued, h.first] at hissued
    exact ⟨x, hsteps, hproblem, Option.some.inj hissued⟩

end Recourse
