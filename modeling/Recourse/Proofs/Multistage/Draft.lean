import Recourse.Proofs.Multistage.Expectation
import Recourse.Proofs.Multistage.Settling

/-! What neither preparing nor solving a problem changes: the chain, and all of the models but their
programs and what was found with them. The scenario tree is told by that, so the paths of a prepared
problem are those of the problem as it was written. -/

namespace Recourse

open Run (Keeps Triple)

variable {α : Type}

/-- A model without what preparing and solving it changes. -/
def Stage.draft (m : Stage α) : Stage α :=
  { m with
    columns := [], rows := [], issued := 0, links := [], noiseLinks := [], linked := false
    costToGoColumn := none, costToGo := none, status := .pending, solution := none }

namespace Multistage

def draft (p : Multistage α) : Multistage α :=
  { p with
    models := p.models.map (List.map Stage.draft), prepared := false
    lastBound := none, provenance := none }

variable {p P : Multistage α}

/-! ### What a draft tells -/

theorem stageAt_draft (p : Multistage α) (t k : ℕ) :
    p.draft.stageAt t k = (p.stageAt t k).map Stage.draft := by
  unfold stageAt draft
  rw [List.getElem?_map]
  cases p.models[t]? with
  | none => rfl
  | some ms => exact List.getElem?_map

theorem exists_draft (h : P.draft = p.draft) {t k : ℕ} {m : Stage α} (hm : P.stageAt t k = some m) :
    ∃ m', p.stageAt t k = some m' ∧ m'.draft = m.draft := by
  have hstage : (P.stageAt t k).map Stage.draft = (p.stageAt t k).map Stage.draft := by
    rw [← stageAt_draft, ← stageAt_draft, h]
  rw [hm] at hstage
  exact Option.map_eq_some_iff.mp hstage.symm

theorem exists_stageAt_of_draft (h : P.draft = p.draft) {t k : ℕ} {m : Stage α}
    (hm : P.stageAt t k = some m) :
    ∃ m', p.stageAt t k = some m' ∧ m'.sampleCount = m.sampleCount ∧
      m'.probability = m.probability := by
  obtain ⟨m', hm', hdraft⟩ := exists_draft h hm
  exact ⟨m', hm', (congrArg Stage.sampleCount hdraft :), (congrArg Stage.probability hdraft :)⟩

theorem reachableStates_of_draft (h : P.draft = p.draft) (t : ℕ) :
    P.reachableStates t = p.reachableStates t :=
  (congrArg (fun p : Multistage α => p.reachableStates t) h :)

theorem horizon_of_draft (h : P.draft = p.draft) : P.horizon = p.horizon := (congrArg horizon h :)

theorem length_models_of_draft (h : P.draft = p.draft) :
    P.models.map List.length = p.models.map List.length := by
  have hmodels : P.models.map (List.map Stage.draft) = p.models.map (List.map Stage.draft) :=
    congrArg models h
  have hlengths := congrArg (List.map List.length) hmodels
  simpa [List.map_map, Function.comp_def] using hlengths

section

variable [Scalar α]

theorem successors_draft (p : Multistage α) (t : ℕ) (j : ℤ) :
    p.draft.successors t j = p.successors t j := by
  unfold successors
  have hmodels : p.draft.models.getD t [] = (p.models.getD t []).map Stage.draft := by
    simp only [draft, List.getD_eq_getElem?_getD, List.getElem?_map]
    cases p.models[t]? <;> rfl
  rw [hmodels]
  dsimp only
  rw [List.zip_map_right, List.zipIdx_map, List.flatMap_map]
  rfl

theorem continuations_of_draft (h : P.draft = p.draft) (n t : ℕ) (j : ℤ) :
    P.continuations n t j = p.continuations n t j := by
  induction n generalizing t j with
  | zero => rfl
  | succ n ih =>
    have hsuccessors : P.successors t j = p.successors t j := by
      rw [← successors_draft, h, successors_draft]
    simp only [continuations, hsuccessors, ih]

theorem paths_of_draft (h : P.draft = p.draft) : P.paths = p.paths := by
  rw [paths_eq, paths_eq, continuations_of_draft h, horizon_of_draft h]

end

section

variable [Field α] [LinearOrder α]

theorem probabilitiesAt_of_draft (h : P.draft = p.draft) (t k : ℕ) :
    P.probabilitiesAt t k = p.probabilitiesAt t k := by
  have hdraft (p : Multistage α) : p.draft.probabilitiesAt t k = p.probabilitiesAt t k := by
    rw [probabilitiesAt, probabilitiesAt, stageAt_draft]
    cases p.stageAt t k <;> rfl
  rw [← hdraft, h, hdraft]

omit [Field α] [LinearOrder α] in
theorem moves_of_draft (h : P.draft = p.draft) (t j : ℕ) : P.moves t j = p.moves t j :=
  (congrArg (fun p : Multistage α => p.moves t j) h :)

theorem expectationFrom_of_draft (h : P.draft = p.draft) (n t j : ℕ) (f : ScenarioPath → α) :
    P.expectationFrom n t j f = p.expectationFrom n t j f := by
  induction n generalizing t j f with
  | zero => rfl
  | succ n ih =>
    have htransition (k : ℕ) : P.transitionAt t j k = p.transitionAt t j k :=
      (congrArg (fun p : Multistage α => p.transitionAt t j k) h :)
    simp only [expectationFrom, stepMean, sampleMean, moves_of_draft h, probabilitiesAt_of_draft h,
      htransition, ih]

theorem expectation_of_draft (h : P.draft = p.draft) (f : ScenarioPath → α) :
    P.expectation f = p.expectation f := by
  simp only [expectation, sampleMean, probabilitiesAt_of_draft h, expectationFrom_of_draft h,
    horizon_of_draft h]

variable [Numeral α]

theorem Charted.of_draft (h : P.draft = p.draft) (hp : p.Charted) : P.Charted where
  chain := (congrArg (fun p : Multistage α => p.chain.Accepted) h).mpr hp.chain
  horizon := (horizon_of_draft h).symm ▸ hp.horizon
  stages := (congrArg (fun p : Multistage α => p.chain.counts.length = p.horizon) h).mpr hp.stages
  models := by
    rw [length_models_of_draft h, hp.models]
    exact (congrArg (fun p : Multistage α => p.chain.counts) h).symm

omit [Numeral α] in
theorem Stochastic.of_draft (h : P.draft = p.draft) (hs : p.Stochastic) : P.Stochastic where
  samples := fun t k m hk hm => by
    obtain ⟨m', hm', hcount, hprobability⟩ := exists_stageAt_of_draft h hm
    have hprobabilities : m'.probabilities = m.probabilities := by
      rw [Stage.probabilities, Stage.probabilities, hcount, hprobability]
    rw [reachableStates_of_draft h] at hk
    rw [← hprobabilities, ← hcount]
    exact hs.samples t k m' hk hm'
  moves := fun t j ht hj => by
    rw [reachableStates_of_draft h] at hj
    rw [moves_of_draft h]
    exact hs.moves t j (horizon_of_draft h ▸ ht) hj

end

theorem Certain.of_draft (h : P.draft = p.draft) (hp : p.Certain) : P.Certain := by
  intro m hm
  obtain ⟨m', hm', hcount, -⟩ := exists_stageAt_of_draft h hm
  rw [← hcount, hp m' hm']

/-! ### Preparation -/

theorem draft_skeleton (p : Multistage α) : p.skeleton.draft = p.draft := by
  simp only [draft, skeleton, List.map_map, Function.comp_def]
  rfl

theorem draft_put {t k : ℕ} {M M' : Stage α} (hM : P.stageAt t k = some M)
    (h : M'.draft = M.draft) :
    (P.put t k M').draft = P.draft := by
  obtain ⟨ms, hms, hM⟩ := stageAt_eq_some.mp hM
  have hgetD : P.models.getD t [] = ms := by simp [hms]
  have hmodels := map_set_of_eq (f := List.map Stage.draft) hms (map_set_of_eq hM h)
  rw [put, hgetD, draft, draft, hmodels]

theorem onModel_draft {β : Type} {t k : ℕ} {act : Stage.Edit α β}
    (h : ∀ d : Stage α, Keeps (fun m => m.draft = d) act) (D : Multistage α) :
    Keeps (fun P => P.draft = D) (onModel t k act) := by
  refine Keeps.iff_on.mpr fun P hP => ?_
  rcases hm : P.stageAt t k with _ | m
  · rwa [onModel_on_none hm]
  · rw [onModel_on_some hm]
    exact (draft_put hm (Keeps.iff_on.mp (h m.draft) m rfl)).trans hP

variable [Scalar α] [Numeral α]

omit [Numeral α] in
theorem equip_draft (terms : Except (Fault α) (α × Limit α)) (sense : Sense) (pruning lagged : Bool)
    (d : Stage α) :
    Keeps (fun m => m.draft = d)
      (do Stage.setUpCostToGo terms; Stage.setUpPool sense pruning lagged) := by
  refine (Stage.setUpCostToGo_keeps (fun _ _ _ _ _ hm => hm) _).bind fun _ =>
    Keeps.iff_on.mpr fun m hm => ?_
  simp only [Run.on, Stage.setUpPool]
  cases m.costToGo <;> exact hm

theorem setUpLinks_draft (first : Bool) (d : Stage α) :
    Keeps (fun m => m.draft = d) (Stage.setUpLinks first : Stage.Edit α Unit) :=
  Stage.setUpLinks_invariant (fun _ _ _ _ _ hm => hm) (fun _ _ _ _ hm => hm) first

/-- Preparation keeps the draft. -/
theorem prepare_draft (D : Multistage α) :
    Keeps (fun P => P.draft = D) (prepare : Run α (Multistage α) Unit) :=
  prepare_keeps_of (fun _ _ _ _ _ _ => onModel_draft (fun d => equip_draft _ _ _ _ d) D)
    (fun _ _ _ => onModel_draft (fun d => setUpLinks_draft _ d) D) fun _ hP => hP

/-- Whatever becomes of a problem by work has its draft. -/
theorem Kept.draft_eq {P₀ : Multistage α} (h : P₀.Kept P) : P.draft = P₀.draft := by
  rw [← draft_skeleton, ← draft_skeleton P₀]
  exact (congrArg draft h.frame :)

theorem draft_of_prepare {P₀ : Multistage α} (h : prepare.on p = (.ok (), P₀)) :
    P₀.draft = p.draft := by
  have hkept := Keeps.iff_on.mp (prepare_draft p.draft) p rfl
  rwa [h] at hkept

end Multistage

end Recourse
