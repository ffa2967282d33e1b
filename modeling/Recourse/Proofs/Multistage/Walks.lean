import Recourse.Proofs.Multistage.Passes
import Recourse.Evaluation

/-! Walks keep the invariant of training, whatever guides them. A guide draws from the source and
sees the problem, but it cannot change it; so a walk changes the problem by visits only. -/

namespace Recourse

open Run (Triple Keeps)

variable {γ α β : Type}

namespace Simulation

variable {I E : Multistage α → Prop} {Q : β → Multistage α → Prop}

theorem onProblem_triple {act : Run α (Multistage α) β} (h : Triple I act Q E) :
    Triple (fun x : Simulation γ α => I x.problem) (onProblem act) (fun b x => Q b x.problem)
      fun x => E x.problem :=
  Triple.zoom_conseq h (fun _ hx => hx) (fun _ _ _ _ hb => hb) fun _ _ _ he => he

theorem onSource_keeps (act : Run α γ β) :
    Keeps (fun x : Simulation γ α => I x.problem) (onSource act) :=
  Keeps.iff_on.mpr fun _ hx => hx

end Simulation

namespace Multistage

variable [Field α] [LinearOrder α] [Numeral α] {p : Multistage α} {F : Prospect α}

theorem walkFrom_keeps (hp : p.WellFormed) (lp : Solver α) (guide : Guide γ α) (n t : ℕ)
    (previous : Option (Visit α)) :
    Keeps (fun x : Simulation γ α => p.Trained F x.problem) (walkFrom lp guide n t previous) := by
  induction n generalizing t previous with
  | zero => exact Keeps.pure
  | succ n ih =>
    refine Keeps.get_bind fun x => (Simulation.onSource_keeps _).bind fun step => ?_
    refine Keeps.bind (Simulation.onProblem_triple (visit_keeps hp lp t _ _ previous)) fun v => ?_
    exact (ih (t + 1) (some v)).bind fun _ => .pure

theorem walk_keeps (hp : p.WellFormed) (lp : Solver α) (guide : Guide γ α) :
    Keeps (fun x : Simulation γ α => p.Trained F x.problem) (walk lp guide) :=
  Keeps.get_bind fun _ => walkFrom_keeps hp lp guide _ _ _

theorem walkEach_keeps (hp : p.WellFormed) (lp : Solver α) (guide : ℤ → Guide γ α) (jobs : List ℤ) :
    Keeps (fun x : Simulation γ α => p.Trained F x.problem) (walkEach lp guide jobs) := by
  induction jobs with
  | nil => exact Keeps.pure
  | cons job jobs ih => exact (walk_keeps hp lp (guide job)).bind fun _ => ih.bind fun _ => .pure

variable [Source γ α]

/-- A chunk of jobs walks with a source of its own. -/
theorem walkChunk_keeps (hp : p.WellFormed) (lp : Solver α) (guide : ℤ → Guide γ α) (seed : ℕ)
    (jobs : List ℤ) :
    Keeps (p.Trained F) (walkChunk lp guide seed jobs) := by
  refine Keeps.bind .ofExcept fun source => Keeps.iff_on.mpr fun P hP => ?_
  exact Keeps.iff_on.mp (walkEach_keeps hp lp guide jobs) { problem := P, source } hP

theorem walkJobs_keeps (hp : p.WellFormed) (lp : Solver α) (guide : ℤ → Guide γ α) (seed : ℕ)
    (jobs workers : Datum α) (limit : Option ℕ) :
    Keeps (p.Trained F) (walkJobs lp guide seed jobs workers limit) := by
  apply Keeps.bind .ofExcept
  intro chunks
  have hwalks : Keeps (p.Trained F) (walkChunks lp guide seed (leading limit chunks)) := by
    refine Keeps.bind (Keeps.of_triple (Triple.mapM (S := fun _ _ => True) fun jobs _ => ?_))
      fun _ => .pure
    exact (walkChunk_keeps hp lp guide seed jobs).and_pure trivial
  exact hwalks.bind fun walks => Keeps.breakOff.bind fun _ => .pure

omit [Source γ α] in
theorem prepare_keeps : Keeps (p.Trained F) (prepare (α := α)) := by
  refine Triple.get_bind fun P hP => ?_
  have hprepared : P.prepared = true := by
    rw [hP.frame]
  rw [if_pos hprepared]
  exact Triple.pure fun _ hs => hs ▸ hP

end Multistage

end Recourse
