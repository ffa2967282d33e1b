import Recourse.Proofs.Twins
import Recourse.Exchange.CutFiles

/-! Work on a problem: visits, walks, backward passes, bounds, evaluations, trainings and cuts from
elsewhere. A property that all elementary operations keep is kept by each piece of work, with
whatever solver it is done and however it ends. -/

namespace Recourse.Multistage

open Run (Coupled Keeps Triple)

variable {α β : Type} [Scalar α] [Numeral α] {I : Multistage α → Prop} {P P' : Multistage α}

structure Elementary (I : Multistage α → Prop) : Prop where
  prepare : Keeps I (prepare : Run α (Multistage α) Unit)
  bounded : ∀ P b, I P → I { P with lastBound := b }
  named : ∀ P x, I P → I { P with provenance := some x }
  visit : ∀ lp t k s previous, (previous = none → t = 0) → Keeps I (visit lp t k s previous)
  outcomes : ∀ lp t k state noise, Keeps I (outcomes lp t k state noise)
  computeBound : ∀ lp, Keeps I (computeBound lp)
  add : ∀ t k c, Keeps I (onModel t k (Stage.onPool (Pool.add c)))

/-- Work on a problem, however it ends. Each piece may have a solver and a source of its own. -/
inductive Work : Multistage α → Multistage α → Prop
  | visit (lp : Solver α) (t : ℕ) (k s : Datum α) (previous : Option (Visit α))
    (hprevious : previous = none → t = 0)
    (P : Multistage α) : Work P ((visit lp t k s previous).on P).2
  | walk {γ : Type} (lp : Solver α) (guide : Guide γ α) (hguide : guide.Plain)
    (x : Simulation γ α) :
    Work x.problem ((walk lp guide).on x).2.problem
  | outcomes (lp : Solver α) (t k : ℕ) (state : List α) (noise : Option (List α))
    (P : Multistage α) :
    Work P ((outcomes lp t k state noise).on P).2
  | refineAt (t j : ℕ) (found : Outcomes α) (state : List α) (noise : Option (List α))
    (P : Multistage α) :
    Work P ((refineAt t j found state noise).on P).2
  | refine (lp : Solver α) (states : List (List α)) (noises : List (Option (List α)))
    (P : Multistage α) :
    Work P ((refine lp states noises).on P).2
  | computeBound (lp : Solver α) (P : Multistage α) : Work P ((computeBound lp).on P).2
  | keep (b : Option α) (P : Multistage α) : Work P { P with lastBound := b }
  | evaluate {γ : Type} [Source γ α] [Inference α] (lp : Solver α) (o : EvaluationPlan α)
    (seed : Datum α)
    (x : Assessment γ α) : Work x.simulation.problem
      ((Evaluation.runSeeded lp o seed).on x).2.simulation.problem
  | train {γ : Type} [Source γ α] [Inference α] (lp : Solver α) (o : TrainingPlan α)
    (seed : Datum α)
    (x : Session γ α) : Work x.simulation.problem
      ((Session.trainSeeded lp o seed).on x).2.simulation.problem
  | add (t k : ℤ) (c : Cut α) (P : Multistage α) :
    Work P ((onModelAt t k (Stage.onPool (Pool.add c))).on P).2
  | read (start : String) (x : Desk α) : Work x.problem ((CutFiles.readCuts start).on x).2.problem

namespace Elementary

variable (h : Elementary I)
include h

theorem refineAt (t j : ℕ) (found : Outcomes α) (state : List α) (noise : Option (List α)) :
    Keeps I (refineAt t j found state noise) := by
  refine .get_bind fun P => .bind .ofExcept fun total => .bind .ofExcept fun m => ?_
  cases m.costToGo with
  | none => exact .throw
  | some ctg => exact .bind .ofExcept fun cut => (h.add _ _ _).bind fun _ => .pure

theorem twins (lp : Solver α) : Twins lp lp fun P P' => P = P' ∧ I P :=
  twins_self h.bounded h.prepare (h.visit lp) (h.outcomes lp) h.refineAt (h.computeBound lp)

theorem addAt (t k : ℤ) (c : Cut α) : Keeps I (onModelAt t k (Stage.onPool (Pool.add c))) :=
  .get_bind fun _ => .bind .ofExcept fun _ => h.add _ _ c

theorem readCuts (start : String) : Keeps (fun x : Desk α => I x.problem)
    (CutFiles.readCuts start) := by
  have honProblem {β : Type} {act : Run α (Multistage α) β} (hact : Keeps I act) :
      Keeps (fun x : Desk α => I x.problem) (CutFiles.onProblem act) :=
    Keeps.iff_on.mpr fun x hx => Keeps.iff_on.mp hact x.problem hx
  have htable (t k : ℕ) : Keeps (fun x : Desk α => I x.problem) (CutFiles.readTable start t k) := by
    refine .get_bind fun x => .bind .ofExcept fun m => .ite .pure (.bind .ofExcept fun table => ?_)
    refine Keeps.bind .ofExcept fun rows =>
      Triple.forM fun row _ => Keeps.bind .ofExcept fun cut => ?_
    exact (honProblem (h.add t k cut)).bind fun _ => .pure
  refine (honProblem h.prepare).bind fun _ => .get_bind fun x => .bind .ofExcept fun info => ?_
  refine (honProblem (Triple.modify fun P hP => h.named P info hP)).bind fun _ =>
    .get_bind fun x => ?_
  exact Keeps.bind (Triple.forM fun place _ => htable place.1 place.2.1) fun _ => .pure

theorem work (hwork : Work P P') (hP : I P) : I P' := by
  cases hwork with
  | visit lp t k s previous hprevious =>
    exact Keeps.iff_on.mp (h.visit lp t k s previous hprevious) P hP
  | walk lp guide hguide x => exact ((h.twins lp).walk hguide x x ⟨⟨rfl, hP⟩, rfl⟩).2.problem.2
  | outcomes lp t k state noise => exact Keeps.iff_on.mp (h.outcomes lp t k state noise) P hP
  | refineAt t j found state noise => exact Keeps.iff_on.mp (h.refineAt t j found state noise) P hP
  | refine lp states noises =>
    exact Keeps.iff_on.mp (Coupled.self_iff.mp ((h.twins lp).refine states noises)) P hP
  | computeBound lp => exact Keeps.iff_on.mp (h.computeBound lp) P hP
  | keep b => exact h.bounded P b hP
  | evaluate lp o seed x =>
    exact Keeps.iff_on.mp (Evaluation.runSeeded_keeps_of (h.twins lp).toWalkTwins o seed) x hP
  | train lp o seed x =>
    exact (Session.trainSeeded_coupled (h.twins lp) o seed x x
      ⟨⟨⟨rfl, hP⟩, rfl⟩, rfl⟩).2.simulation.problem.2
  | add t k c => exact Keeps.iff_on.mp (h.addAt t k c) P hP
  | read start x => exact Keeps.iff_on.mp (h.readCuts start) x hP

end Elementary

end Recourse.Multistage
