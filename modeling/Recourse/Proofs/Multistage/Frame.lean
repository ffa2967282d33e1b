import Recourse.Proofs.Multistage.Independence
import Recourse.Proofs.Stage.Frame

/-! What nothing that is done with a prepared problem changes: the problem but for its cuts, the
rows of its models, its bound and where its cuts come from. -/

namespace Recourse

open Run (Keeps)

variable {α β : Type}

theorem Stage.onPool_bare {act : Run α (Pool α) β}
    (hact : ∀ pool : Pool α, (act.on pool).2.bare = pool.bare) (b : Stage α) :
    Keeps (fun m => m.bare = b) (Stage.onPool act) := by
  refine Keeps.iff_on.mpr fun m hm => ?_
  rcases hctg : m.costToGo with _ | ctg
  · rwa [Stage.onPool_on_none hctg]
  · rw [Stage.onPool_on_some hctg]
    have hpool : ({ ctg with pool := (act.on ctg.pool).2 } : CostToGo α).bare = ctg.bare := by
      rw [CostToGo.bare, CostToGo.bare, hact]
    rw [← hm, Stage.bare, Stage.bare, hctg, Option.map_some, Option.map_some, hpool]

namespace Multistage

/-- A problem without what work changes. -/
def frame (P : Multistage α) : Multistage α :=
  { P.skeleton with lastBound := none, provenance := none }

variable {P₀ P P' : Multistage α} {t j k : ℕ} {m : Stage α}

theorem eq_of_frame (f : Multistage α → β) (hf : ∀ P, f P.frame = f P) (h : P.frame = P'.frame) :
    f P = f P' := by
  rw [← hf P, h, hf P']

theorem exists_of_frame (h : P.frame = P'.frame) (hm : P.stageAt t k = some m) :
    ∃ m', P'.stageAt t k = some m' ∧ m'.bare = m.bare := by
  have hstage (P : Multistage α) : P.frame.stageAt t k = (P.stageAt t k).map Stage.bare :=
    P.stageAt_skeleton t k
  have hbare : (P.stageAt t k).map Stage.bare = (P'.stageAt t k).map Stage.bare := by
    rw [← hstage, h, hstage]
  rw [hm] at hbare
  exact Option.map_eq_some_iff.mp hbare.symm

theorem keeps_of_skeleton {I : Multistage α → Prop}
    (hI : ∀ P P', P'.skeleton = P.skeleton → I P → I P')
    {act : Run α (Multistage α) β} (h : ∀ S : Multistage α, Keeps (fun P => P.skeleton = S) act) :
    Keeps I act :=
  Keeps.iff_on.mpr fun P hP => hI P _ (Keeps.iff_on.mp (h P.skeleton) P rfl) hP

theorem frame_of_skeleton {F : Multistage α} (h : P'.skeleton = P.skeleton)
    (hP : P.prepared = true ∧ P.frame = F) :
    P'.prepared = true ∧ P'.frame = F := by
  have hprepared : P'.prepared = P.prepared := (congrArg prepared h :)
  rw [hprepared, frame, h]
  exact hP

variable [Scalar α] [Numeral α]

/-- All elementary operations but preparation come down to operations on models that keep whatever
solving keeps and the arrival of cuts does. -/
theorem elementary_of_steady {I : Multistage α → Prop}
    (hprepare : Keeps I (prepare : Run α (Multistage α) Unit))
    (hbounded : ∀ P b, I P → I { P with lastBound := b })
    (hnamed : ∀ P x, I P → I { P with provenance := some x })
    (hmodel : ∀ (β : Type) (t k : ℕ) (act : Stage.Edit α β), (∀ J : Stage α → Prop, Stage.Steady J →
      (∀ c, Keeps J (Stage.onPool (Pool.add c))) → Keeps J act) →
      Keeps I (onModel t k act)) : Elementary I where
  prepare := hprepare
  bounded := hbounded
  named := hnamed
  visit := fun lp t k s _ _ =>
  visit_keeps_of fun _ _ _ => hmodel _ _ _ _ fun _ hJ _ => hJ.follow lp _ t k s _
  outcomes := fun lp t k state noise => hmodel _ t k _ fun _ hJ _ =>
    (hJ.enterIncoming state noise).bind fun _ => hJ.solveScenarios lp
  computeBound := fun lp => hmodel _ 0 0 _ fun _ hJ _ => hJ.estimate lp
  add := fun t k c => hmodel _ t k _ fun _ _ hadd => hadd c

theorem elementary_of_skeleton {I : Multistage α → Prop}
    (hprepare : Keeps I (prepare : Run α (Multistage α) Unit))
    (hbounded : ∀ P b, I P → I { P with lastBound := b })
    (hnamed : ∀ P x, I P → I { P with provenance := some x })
    (hskeleton : ∀ P P', P'.skeleton = P.skeleton → I P → I P') : Elementary I :=
  elementary_of_steady hprepare hbounded hnamed fun _ _ _ _ hact => keeps_of_skeleton hskeleton
    (onModel_skeleton fun b => hact _ (Stage.bare_steady b) fun c =>
      Stage.onPool_bare (fun pool => (Pool.grows_add c pool).bare) b)

theorem elementary_frame (F : Multistage α) : Elementary fun P => P.prepared = true ∧ P.frame = F :=
  elementary_of_skeleton (Keeps.iff_on.mpr fun P hP => by rwa [prepare_on_prepared hP.1])
    (fun _ _ hP => hP) (fun _ _ hP => hP)
    fun _ _ h hP => frame_of_skeleton h hP

/-- Whatever is done with a prepared problem leaves its frame. -/
theorem frame_of_use (hP₀ : P₀.prepared = true) (huse : Relation.ReflTransGen Use P₀ P) :
    P.prepared = true ∧ P.frame = P₀.frame := by
  induction huse with
  | refl => exact ⟨hP₀, rfl⟩
  | tail _ hstep ih =>
    cases hstep with
    | work hwork => exact (elementary_frame P₀.frame).work hwork ih
    | prune t k =>
      have hprune : Keeps (fun P => P.prepared = true ∧ P.frame = P₀.frame)
          (onModelAt t k (Stage.onPool Pool.prune) : Run α (Multistage α) ℕ) :=
        .get_bind fun _ =>
          .bind .ofExcept fun _ => keeps_of_skeleton (fun _ _ h hP => frame_of_skeleton h hP)
          (onModel_skeleton fun b => Stage.onPool_bare (fun pool => (Pool.grows_prune pool).bare) b)
      exact Keeps.iff_on.mp hprune _ ih

end Multistage

end Recourse
