import Recourse.Proofs.Multistage.Walks
import Recourse.Proofs.Session

/-! Training keeps its promise on each exit: the cuts of the problem are valid, and no bound that
was ever recorded is worse than any decision. Evaluations in between change no more than walks
do. -/

namespace Recourse

open Run (Triple Keeps)

variable {γ α β : Type} [Field α] [LinearOrder α] [Numeral α] {p : Multistage α} {lp : Solver α}
  {F : Multistage.Prospect α}

/-! ### Evaluations -/

namespace Evaluation

theorem onProblem_keeps {act : Run α (Multistage α) β} (h : Keeps (p.Trained F) act) :
    Keeps (fun x : Assessment γ α => p.Trained F x.simulation.problem) (onProblem act) :=
  Triple.zoom_conseq (Simulation.onProblem_triple h) (fun _ hx => hx) (fun _ _ _ _ hb => hb)
    fun _ _ _ he => he

theorem record_keeps (change : Evaluation α → Evaluation α) :
    Keeps (fun x : Assessment γ α => p.Trained F x.simulation.problem) (record change) :=
  Triple.modify fun _ hx => hx

theorem begin_keeps (o : EvaluationPlan α) :
    Keeps (fun x : Assessment γ α => p.Trained F x.simulation.problem) (begin o) :=
  Keeps.get_bind fun _ => record_keeps _

variable [Source γ α] [Inference α]

omit [Inference α] in
theorem explore_keeps (hp : p.WellFormed) (lp : Solver α) (o : EvaluationPlan α)
    (limit : Option ℕ) :
    Keeps (fun x : Assessment γ α => p.Trained F x.simulation.problem) (explore lp o limit) := by
  refine Keeps.bind (Keeps.iff_on.mpr fun _ hx => hx) fun seed => ?_
  refine Keeps.get_bind fun x => Keeps.bind .ofExcept fun workers => ?_
  exact (onProblem_keeps (Multistage.walkJobs_keeps hp lp _ _ _ _ limit)).bind fun _ => .pure

omit [Source γ α] in
theorem weigh_keeps (o : EvaluationPlan α) (paths : Option (List ScenarioPath)) (values : List α) :
    Keeps (fun x : Assessment γ α => p.Trained F x.simulation.problem) (weigh o paths values) := by
  refine (record_keeps _).bind fun _ => Keeps.get_bind fun x => ?_
  have hgap : Keeps (fun x : Assessment γ α => p.Trained F x.simulation.problem) (do
      let gap ← Run.ofExcept ((← get).evaluation.gapOf x.simulation.problem)
      record fun e => { e with gap := some gap }) :=
    .get_bind fun _ => .bind .ofExcept fun _ => record_keeps _
  have hinterval : Keeps (fun x : Assessment γ α => p.Trained F x.simulation.problem) (do
      if !o.isPlain then
        let interval ← Run.ofExcept (intervalOf values o.percentile)
        record fun e => { e with interval := some interval }
      let gap ← Run.ofExcept ((← get).evaluation.gapOf x.simulation.problem)
      record fun e => { e with gap := some gap }) :=
    .ite (.bind .ofExcept fun _ => (record_keeps _).bind fun _ => hgap) hgap
  cases paths with
  | none => exact hinterval
  | some paths => exact .bind .ofExcept fun _ => (record_keeps _).bind fun _ => hinterval

theorem run_keeps (hp : p.WellFormed) (lp : Solver α) (o : EvaluationPlan α) (limit : Option ℕ) :
    Keeps (fun x : Assessment γ α => p.Trained F x.simulation.problem) (run lp o limit) := by
  refine (onProblem_keeps Multistage.prepare_keeps).bind fun _ => (begin_keeps o).bind fun _ => ?_
  exact (explore_keeps hp lp o limit).bind fun r => weigh_keeps o r.1 r.2

end Evaluation

/-! ### Sessions -/

namespace Session

/-- A session whose problem keeps its invariant, and whose recorded bounds are no worse than any
decision. -/
structure Sound (p : Multistage α) (F : Multistage.Prospect α) (x : Session γ α) : Prop where
  trained : p.Trained F x.simulation.problem
  bounds : ∀ b ∈ x.record.bounds, p.BoundFor F b

theorem onProblem_triple {act : Run α (Multistage α) β} {S : β → Prop}
    (h : Triple (p.Trained F) act (fun b P => p.Trained F P ∧ S b) (p.Trained F)) :
    Triple (Sound (γ := γ) p F) (onProblem act) (fun b x => Sound p F x ∧ S b) (Sound p F) :=
  Triple.zoom_conseq (Simulation.onProblem_triple h) (fun _ hx => hx.trained)
    (fun _ _ _ hx hb => ⟨⟨hb.1, hx.bounds⟩, hb.2⟩) fun _ _ hx he => ⟨he, hx.bounds⟩

theorem onProblem_keeps {act : Run α (Multistage α) β} (h : Keeps (p.Trained F) act) :
    Keeps (Sound (γ := γ) p F) (onProblem act) :=
  .of_triple (onProblem_triple (S := fun _ => True) (h.and_pure trivial))

theorem onSource_keeps (act : Run α γ β) : Keeps (Sound p F) (onSource act) :=
  Keeps.iff_on.mpr fun _ hx => ⟨hx.trained, hx.bounds⟩

variable [Source γ α] [Inference α]

theorem evaluate_keeps (hp : p.WellFormed) (lp : Solver α) (o : EvaluationPlan α)
    (limit : Option ℕ) : Keeps (Sound (γ := γ) p F) (evaluate lp o limit) := by
  refine Keeps.iff_on.mpr fun x hx => ⟨?_, hx.bounds⟩
  exact Keeps.iff_on.mp (Evaluation.run_keeps hp lp o limit)
    { evaluation := Evaluation.new x.simulation.problem, simulation := x.simulation } hx.trained

omit [Source γ α] [Inference α] in
theorem keep_keeps {bound : α} (h : p.BoundFor F bound) (values : List α) (signal : Signal) :
    Keeps (Sound (γ := γ) p F) (keep bound values signal) := by
  refine keep_triple_of (fun x hx => ⟨hx.trained, fun b hb => ?_⟩) (fun x hx => ⟨?_, hx.bounds⟩)
    (fun x _ hx => ⟨hx.trained, hx.bounds⟩) values signal
  · rcases List.mem_append.mp hb with hb | hb
    · exact hx.bounds b hb
    · obtain rfl := List.mem_singleton.mp hb
      exact h
  · refine ⟨?_, hx.trained.models, .inr ⟨bound, rfl, h⟩⟩
    rw [hx.trained.frame]

variable [IsStrictOrderedRing α] (hp : p.Checked) (hs : p.Stochastic) (hF : p.Realistic F)
  (hlp : lp.Exact)
include hp hs hF hlp

/-- The bound that an iteration arrives at is that of valid cuts. -/
theorem invariant_sound :
    Invariant lp (Sound (γ := γ) p F) fun bound _ => p.BoundFor F bound where
  improve := fun o signal => by
    refine Triple.bind (onSource_keeps _) fun seed => Triple.get_bind_any fun x => ?_
    have hwalks := Multistage.walkJobs_keeps (F := F) hp.wellFormed lp
      (fun _ => (Guide.random : Guide γ α))
      seed o.steps x.record.workers signal.walks?
    apply Triple.bind (onProblem_keeps hwalks)
    intro walks
    have hrefine : Keeps (p.Trained F) (Multistage.refineAll lp walks signal.passes?) := by
      refine Keeps.bind (Triple.forM fun walk _ => ?_) fun _ => .breakOff
      exact Multistage.refineAlong_keeps hp hs hF hlp walk
    apply Triple.bind (onProblem_keeps hrefine)
    intro _
    apply Triple.bind (onProblem_triple (Multistage.computeBound_triple hp hF hlp))
    intro bound
    exact Triple.bind (Triple.breakOff (fun _ _ hx => hx) fun _ _ hx => hx.1) fun _ =>
      Triple.pure fun _ hx => hx
  keep := fun bound values signal => Triple.of_and fun hbound => keep_keeps hbound values signal
  evaluate := fun o limit => evaluate_keeps hp.wellFormed lp o limit
  count := fun _ _ hx => ⟨hx.trained, hx.bounds⟩
  journal := fun _ _ hx => ⟨hx.trained, hx.bounds⟩

theorem trainSeeded_keeps (o : TrainingPlan α) (seed : Datum α) :
    Keeps (Sound (γ := γ) p F) (trainSeeded lp o seed) :=
  (invariant_sound hp hs hF hlp).trainSeeded_keeps (onProblem_keeps Multistage.prepare_keeps)
    (fun _ _ hbounds hx => ⟨hx.trained, fun b hb => hx.bounds b (hbounds ▸ hb)⟩)
    (fun _ _ hx => ⟨hx.trained, hx.bounds⟩) o seed

end Session

end Recourse
