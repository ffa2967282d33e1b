import Recourse.Proofs.Multistage.Frame
import Recourse.Proofs.Multistage.Writing
import Recourse.Proofs.Stage.Outfit

/-! How far the models of a problem are joined. Whatever is done with a problem, none of its models
loses its cost-to-go or its links, and those that can be reached have theirs from the moment that
the problem is prepared. -/

namespace Recourse.Multistage

open Run (Keeps Triple)

variable {α β : Type} [Field α] [LinearOrder α] {p P : Multistage α} {t k : ℕ}

structure Joined (P : Multistage α) : Prop where
  models : ∀ t k m, P.stageAt t k = some m → m.Outfitted (t = 0) false false
  joined : P.prepared = true → ∀ t k m,
    t < P.horizon → k ∈ P.reachableStates t → P.stageAt t k = some m →
    m.Outfitted (t = 0) true (t + 1 < P.horizon)

theorem Loose.joined (h : P.Loose) : P.Joined where
  models := fun t k m hm => (h.models t k m hm).toAlone.outfitted
  joined := fun hprepared => by simp [h.unprepared] at hprepared

theorem onModel_joined {act : Stage.Edit α β}
    (h : ∀ first linked equipped, Keeps (Stage.Outfitted first linked equipped) act) :
    Keeps Joined (onModel t k act) := by
  refine Keeps.iff_on.mpr fun P hP => ?_
  rcases hm : P.stageAt t k with _ | m
  · rwa [onModel_on_none hm]
  rw [onModel_on_some hm]
  refine ⟨fun t' k' M hM => ?_, fun hprepared t' k' M ht' hk' hM => ?_⟩
  · rcases stageAt_put_cases hm hM with ⟨rfl, rfl, rfl⟩ | hM
    · exact Keeps.iff_on.mp (h _ _ _) m (hP.models _ _ m hm)
    · exact hP.models t' k' M hM
  · rcases stageAt_put_cases hm hM with ⟨rfl, rfl, rfl⟩ | hM
    · exact Keeps.iff_on.mp (h _ _ _) m (hP.joined hprepared _ _ m ht' hk' hm)
    · exact hP.joined hprepared t' k' M ht' hk' hM

variable [Numeral α]

/-- An attempt to prepare a problem that fails does not count. -/
theorem prepare_unprepared : Triple (fun P : Multistage α => P.prepared = false) prepare
    (fun _ _ => True)
    fun P => P.prepared = false := by
  have hreachable (t : ℕ) (act : Stage.Edit α Unit) :
      Keeps (fun P : Multistage α => P.prepared = false) (onReachable t act) :=
    .get_bind fun _ => Triple.forM fun _ _ => Keeps.iff_on.mpr fun _ hP => hP
  have hcosts (t : ℕ) : Keeps (fun P : Multistage α => P.prepared = false)
      (setUpCostToGo t : Run α (Multistage α) Unit) :=
    .get_bind fun P => hreachable t _
  refine Triple.get_bind_any fun P => ?_
  split_ifs
  · exact Triple.pure fun _ _ => trivial
  · refine Triple.bind (Keeps.ofExcept (I := fun P : Multistage α => P.prepared = false)) fun _ =>
      ?_
    refine Triple.bind (Triple.forM fun t _ => hcosts t) fun _ => ?_
    exact Triple.bind (Triple.forM fun t _ => hreachable t _) fun _ =>
      Triple.modify fun _ _ => trivial

theorem prepare_joined : Keeps Joined (prepare : Run α (Multistage α) Unit) := by
  refine Keeps.iff_on.mpr fun P hP => ?_
  cases hprepared : P.prepared with
  | true => rwa [prepare_on_prepared hprepared]
  | false =>
    have hall : Keeps (AllModels (fun t => Stage.Outfitted (t = 0) false false) P.pruning)
        (prepare : Run α (Multistage α) Unit) :=
      prepare_allModels (fun _ => Stage.setUpCostToGo_outfitted)
        (fun _ _ _ => Stage.setUpPool_outfitted _ _ _) fun _ =>
        Stage.setUpLinks_outfitted.conseq (fun _ hm => hm) (fun _ _ hm => hm.unlinked) fun _ hm =>
          hm
    have hmodels := (Keeps.iff_on.mp hall P ⟨rfl, hP.models⟩).models
    rcases hrun : prepare.on P with ⟨e | _, P'⟩ <;> rw [hrun] at hmodels
    · refine ⟨hmodels, fun hprepared' => ?_⟩
      cases hprepared'.symm.trans ((prepare_unprepared P hprepared).2 e P' hrun)
    · refine ⟨hmodels, fun _ t k M ht hk hM => ?_⟩
      have hdraft := draft_of_prepare hrun
      rw [horizon_of_draft hdraft] at ht ⊢
      rw [reachableStates_of_draft hdraft] at hk
      obtain ⟨m, hm, -⟩ := exists_draft hdraft hM
      obtain ⟨M', hM', houtfitted⟩ := joined_of_prepare
        (J := fun equipped linked => Stage.Outfitted (t = 0) linked equipped)
        (fun _ _ terms => Stage.equip_outfitted terms _ _ _)
        (fun _ _ => Stage.setUpLinks_outfitted.conseq (fun _ hm => hm) (fun _ _ hm => hm)
        fun _ _ => trivial) hprepared hrun hk ht
        hm (hP.models t k m hm)
      obtain rfl := Option.some.inj (hM.symm.trans hM')
      exact houtfitted

/-- Whatever is done with a problem, its models remain joined. -/
theorem joined_elementary : Elementary (Joined : Multistage α → Prop) :=
  elementary_of_steady prepare_joined (fun _ _ hP => ⟨hP.models, hP.joined⟩)
    (fun _ _ hP => ⟨hP.models, hP.joined⟩)
    fun _ _ _ _ hact =>
    onModel_joined fun _ _ _ => hact _ Stage.outfitted_steady fun _ => Stage.onPool_outfitted _

theorem draft_elementary (D : Multistage α) : Elementary fun P => P.draft = D :=
  elementary_of_skeleton (prepare_draft D) (fun _ _ hP => hP) (fun _ _ hP => hP) fun P P' h hP => by
    rw [← draft_skeleton, h, draft_skeleton, hP]

/-! ### Problems that are jammed -/

theorem jammed_of_skeleton (h : P.skeleton = p.skeleton) (hp : p.Jammed) : P.Jammed := by
  obtain ⟨t, k, m, hk, hm, hstuck⟩ := hp.stuck
  have hstage : (P.stageAt t k).map Stage.bare = some m.bare := by
    rw [← stageAt_skeleton, h, stageAt_skeleton, hm, Option.map_some]
  obtain ⟨m', hm', hbare⟩ := Option.map_eq_some_iff.mp hstage
  have hstuck' : m'.bare.Stuck (t = 0) := hbare ▸ ⟨hstuck.unlinked, hstuck.follows, hstuck.refused⟩
  refine ⟨(congrArg prepared h :).trans hp.unprepared, t, k, m', ?_, hm', hstuck'.unlinked,
    hstuck'.follows, hstuck'.refused⟩
  have hreachable : P.reachableStates t = p.reachableStates t :=
    (congrArg (fun P : Multistage α => P.reachableStates t) h :)
  rwa [hreachable]

variable [IsStrictOrderedRing α]

theorem jammed_elementary : Elementary fun P : Multistage α => P.Charted ∧ P.Jammed := by
  refine elementary_of_skeleton (Keeps.iff_on.mpr fun P hP => ?_) (fun _ _ hP => ?_)
    (fun _ _ hP => ?_) fun P P' h hP => ?_
  · have hcharted := Charted.of_draft (Keeps.iff_on.mp (prepare_draft P.draft) P rfl) hP.1
    rcases hrun : prepare.on P with ⟨e | _, P'⟩ <;> rw [hrun] at hcharted
    · exact ⟨hcharted, (prepare_of_jammed hP.1 hP.2 P rfl).2 e P' hrun⟩
    · exact ((prepare_of_jammed hP.1 hP.2 P rfl).1 () P' hrun).elim
  · exact ⟨⟨hP.1.chain, hP.1.horizon, hP.1.stages, hP.1.models⟩, hP.2.unprepared, hP.2.stuck⟩
  · exact ⟨⟨hP.1.chain, hP.1.horizon, hP.1.stages, hP.1.models⟩, hP.2.unprepared, hP.2.stuck⟩
  · refine ⟨Charted.of_draft ?_ hP.1, jammed_of_skeleton h hP.2⟩
    rw [← draft_skeleton, h, draft_skeleton]

end Recourse.Multistage
