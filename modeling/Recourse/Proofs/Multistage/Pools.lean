import Recourse.Proofs.Cut.Antichain
import Recourse.Proofs.Multistage.Frame

/-! The pools of a problem. Preparation sets them up without cuts, and whatever is done with the
problem from then on, a pool that prunes stores no dominated cut. -/

namespace Recourse

open Run (Keeps Triple)

variable {α β : Type} [Scalar α]

def Pool.Unused (p : Pool α) : Prop := ∃ sense box pruning, p = Pool.empty sense box pruning

theorem Pool.Unused.thinned {p : Pool α} (h : p.Unused) : p.Thinned := by
  obtain ⟨sense, box, pruning, rfl⟩ := h
  exact thinned_empty sense box pruning

namespace Stage

variable {m M : Stage α} {ctg : CostToGo α} {φ : Pool α → Prop}

def PoolHas (φ : Pool α → Prop) (m : Stage α) : Prop := ∀ pool, m.pool? = some pool → φ pool

omit [Scalar α] in
theorem pool?_bare (m : Stage α) : m.bare.pool? = m.pool?.map Pool.bare := by
  rw [bare, pool?, pool?]
  cases m.costToGo <;> rfl

omit [Scalar α] in
theorem PoolHas.of_pool (h : m.PoolHas φ) (hpool : M.pool? = m.pool?) : M.PoolHas φ :=
  fun pool hM => h pool (hpool ▸ hM)

omit [Scalar α] in
theorem onPool_has {act : Run α (Pool α) β} (hact : ∀ p : Pool α, φ p → φ (act.on p).2) :
    Keeps (PoolHas φ) (onPool act) := by
  refine Keeps.iff_on.mpr fun m hm => ?_
  rcases hctg : m.costToGo with _ | ctg
  · rwa [onPool_on_none hctg]
  · rw [onPool_on_some hctg]
    rintro _ ⟨⟩
    exact hact _ (hm ctg.pool (by rw [pool?, hctg]; rfl))

omit [Scalar α] in
theorem pool?_attach (m : Stage α) (attached : CostToGo α → List (ℕ × ℕ))
    (version : CostToGo α → ℕ) :
    ({ m with costToGo := m.costToGo.map fun ctg =>
      { ctg with attached := attached ctg, version := version ctg } } : Stage α).pool? =
      m.pool? := by
  rw [pool?, pool?]
  cases m.costToGo <;> rfl

theorem attachCut_has [Numeral α] (lagged : Bool) (c : Cut α) :
    Keeps (PoolHas φ) (attachCut lagged c) := by
  refine Keeps.iff_on.mpr fun m hm => ?_
  rw [attachCut_on]
  dsimp only
  split_ifs
  · exact hm.of_pool (m.pool?_attach
      (fun ctg => ctg.attached ++ [(c.number, m.issued)]) CostToGo.version)
  · exact hm

omit [Scalar α] in
theorem detach_has : Keeps (PoolHas φ) (detach : Edit α Unit) := by
  refine Triple.get_bind fun m hm => ?_
  rcases hctg : m.costToGo with _ | ctg
  · exact Triple.pure fun s hs => hs ▸ hm
  · have hremoved (ids : List ℕ) : Triple (· = m) (removeRows ids : Edit α Unit)
        (fun _ s => s.PoolHas φ ∧ s.costToGo = some ctg) (PoolHas φ) := by
      rintro _ rfl
      simp only [Run.on, removeRows]
      split_ifs
      all_goals
        refine ⟨fun _ s hrun => ?_, fun e s hrun => ?_⟩ <;> cases hrun
        exact ⟨hm, hctg⟩
    refine Triple.bind (hremoved _) fun _ => Triple.modify fun s hs => hs.1.of_pool ?_
    rw [pool?, pool?, hs.2]
    rfl

theorem poolHas_steady [Numeral α] : Steady (PoolHas φ) where
  putRhs := fun _ _ => Keeps.iff_on.mpr fun _ h => h
  attach := attach_keeps attachCut_has detach_has
  optimize := fun lp phase sample => Keeps.iff_on.mpr fun m hm => by
    simp only [Run.on, optimize]
    split <;> exact hm

theorem setUpPool_unused (sense : Sense) (pruning lagged : Bool) :
    Keeps (PoolHas Pool.Unused) (setUpPool sense pruning lagged : Edit α Unit) := by
  refine Keeps.iff_on.mpr fun m hm => ?_
  simp only [Run.on, setUpPool]
  rcases hctg : m.costToGo with _ | ctg
  · rintro _ ⟨⟩
    exact ⟨sense, m.cutBox lagged, pruning, rfl⟩
  · exact hm

end Stage

namespace Multistage

variable {p P P₀ : Multistage α} {t k : ℕ} {m : Stage α}

def PoolsHave (φ : Pool α → Prop) (P : Multistage α) : Prop :=
  ∀ t k m, P.stageAt t k = some m → m.PoolHas φ

variable {φ : Pool α → Prop}

omit [Scalar α] in
theorem onModel_poolsHave {act : Stage.Edit α β} (h : Keeps (Stage.PoolHas φ) act) :
    Keeps (PoolsHave φ) (onModel t k act) := by
  refine Keeps.iff_on.mpr fun P hP => ?_
  rcases hm : P.stageAt t k with _ | m
  · rwa [onModel_on_none hm]
  · rw [onModel_on_some hm]
    intro t' k' M hM
    rcases stageAt_put_cases hm hM with ⟨rfl, rfl, rfl⟩ | hM
    · exact Keeps.iff_on.mp h m (hP _ _ m hm)
    · exact hP t' k' M hM

variable [Numeral α]

theorem unused_of_prepare (hp : p.PoolsHave Pool.Unused) (h : prepare.on p = (.ok (), P₀)) :
    P₀.PoolsHave Pool.Unused := by
  have hprepare : Keeps (AllModels (fun _ => Stage.PoolHas Pool.Unused) p.pruning)
      (prepare : Run α (Multistage α) Unit) :=
    prepare_allModels (fun _ => Stage.setUpCostToGo_keeps fun _ _ _ _ _ hm => hm)
      (fun _ _ _ => Stage.setUpPool_unused _ _ _)
      fun _ => Stage.setUpLinks_invariant (fun _ _ _ _ _ hm => hm) (fun _ _ _ _ hm => hm) _
  have hP₀ := (Keeps.iff_on.mp hprepare p ⟨rfl, hp⟩).models
  rwa [h] at hP₀

theorem thinned_elementary : Elementary
      fun P : Multistage α => P.prepared = true ∧ P.PoolsHave Pool.Thinned :=
  elementary_of_steady (Keeps.iff_on.mpr fun P hP => by rwa [prepare_on_prepared hP.1])
    (fun _ _ hP => hP) (fun _ _ hP => hP)
    fun _ _ _ _ hact => Keeps.and (Keeps.iff_on.mpr fun _ hP => hP)
      (onModel_poolsHave (hact _ Stage.poolHas_steady
      fun c => Stage.onPool_has fun _ hp => hp.add c))

/-- Whatever is done with a prepared problem whose pools were empty, no dominated cuts are stored
where they are pruned. -/
theorem thinned_of_use (hP₀ : P₀.prepared = true) (hunused : P₀.PoolsHave Pool.Unused)
    (huse : Relation.ReflTransGen Use P₀ P) : P.prepared = true ∧ P.PoolsHave Pool.Thinned := by
  induction huse with
  | refl => exact ⟨hP₀, fun t k m hm pool hpool => (hunused t k m hm pool hpool).thinned⟩
  | tail _ hstep ih =>
    cases hstep with
    | work hwork => exact thinned_elementary.work hwork ih
    | prune t k =>
      have hprune : Keeps (fun P : Multistage α => P.prepared = true ∧ P.PoolsHave Pool.Thinned)
          (onModelAt t k (Stage.onPool Pool.prune) : Run α (Multistage α) ℕ) :=
        .get_bind fun _ => .bind .ofExcept fun _ => Keeps.and (Keeps.iff_on.mpr fun _ hP => hP)
          (onModel_poolsHave (Stage.onPool_has fun _ hp => hp.prune))
      exact Keeps.iff_on.mp hprune _ ih

end Multistage

end Recourse
