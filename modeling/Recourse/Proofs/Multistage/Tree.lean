import Recourse.Proofs.Markov.Chain
import Recourse.Proofs.Multistage.WellFormed
import Recourse.Proofs.Random.Choice
import Recourse.Multistage.Tree

/-! The scenario tree of a problem whose chain was accepted. A step of stage after stage leads from
reachable states to reachable states, whether it is drawn or enumerated, and the steps that can be
drawn are those that are enumerated. -/

namespace Recourse.Multistage

open Finset
open Source (Lawful)

variable {α γ : Type} [Field α] [LinearOrder α] {p : Multistage α}

/-- A problem whose Markov chain was accepted, with a model for each Markov state of each stage. -/
structure Charted [Numeral α] (p : Multistage α) : Prop where
  chain : p.chain.Accepted
  horizon : 0 < p.horizon
  stages : p.chain.counts.length = p.horizon
  models : p.models.map List.length = p.chain.counts

def probabilitiesAt (p : Multistage α) (t k : ℕ) : List α :=
  ((p.stageAt t k).map Stage.probabilities).getD []

/-! ### Reachable states -/

section

variable [Numeral α] (hp : p.Charted)
include hp

theorem Charted.counts_eq (t : ℕ) : p.chain.counts.getD t 0 = (p.models.getD t []).length := by
  rw [← hp.models]
  simp only [List.getD_eq_getElem?_getD, List.getElem?_map]
  cases p.models[t]? <;> rfl

theorem Charted.exists_stageAt {t k : ℕ} : (∃ m, p.stageAt t k = some m) ↔
    k < p.chain.counts.getD t 0 := by
  rw [hp.counts_eq, ← Option.isSome_iff_exists, stageAt, List.getD_eq_getElem?_getD]
  cases p.models[t]? <;> simp

theorem Charted.exists_model {t k : ℕ} (hk : k < p.chain.counts.getD t 0) :
    ∃ m, p.stageAt t k = some m ∧ p.model t k = .ok m := by
  obtain ⟨m, hm⟩ := hp.exists_stageAt.mpr hk
  refine ⟨m, hm, ?_⟩
  rw [model_eq, hm]

variable [IsStrictOrderedRing α]

theorem Charted.linked : p.chain.Linked := hp.chain.linked

theorem Charted.link {t : ℕ} (ht : t + 1 < p.horizon) :
    Chain.Link (p.chain.reachable.getD t []) (p.chain.matrices.getD (t + 1) [])
      (p.chain.counts.getD (t + 1) 0)
      (p.chain.reachable.getD (t + 1) []) := hp.linked.link t (hp.stages ▸ ht)

theorem Charted.reachableStates_zero : p.reachableStates 0 = [0] := by
  have hfirst := (hp.linked.first (hp.stages ▸ hp.horizon)).2
  simp [reachableStates, hfirst]

/-- A state is reachable just if a reachable one of the stage before moves to it. -/
theorem Charted.mem_reachableStates_succ {t k : ℕ} (ht : t + 1 < p.horizon) :
    k ∈ p.reachableStates (t + 1) ↔ ∃ j ∈ p.reachableStates t, 0 < p.transitionAt (t + 1) j k := by
  simp only [mem_reachableStates]
  exact (hp.link ht).mem_after

theorem Charted.lt_counts {t k : ℕ} (hk : k ∈ p.reachableStates t) :
    t < p.horizon ∧ k < p.chain.counts.getD t 0 := by
  rw [mem_reachableStates] at hk
  have ht : t < p.horizon := by
    by_contra hlast
    have hnone : p.chain.reachable[t]? = none := by
      rw [List.getElem?_eq_none_iff, hp.linked.reachable, hp.stages]
      exact not_lt.mp hlast
    simp [hnone] at hk
  have hlt := (List.getElem?_eq_some_iff.mp hk).1
  cases t with
  | zero =>
    have hfirst := hp.linked.first (hp.stages ▸ hp.horizon)
    simp only [List.getD_eq_getElem?_getD, hfirst, Option.getD_some] at hlt ⊢
    exact ⟨ht, hlt⟩
  | succ t => exact ⟨ht, (hp.link ht).length_after ▸ hlt⟩

/-- The rows of reachable states are rows of the matrices, and their entries are probabilities. -/
theorem Charted.transition_eq {t j : ℕ} (ht : t + 1 < p.horizon) (hj : j ∈ p.reachableStates t) :
    p.transition (t + 1 : ℕ) j = .ok (p.moves (t + 1) j) ∧
      (p.moves (t + 1) j).length = p.chain.counts.getD (t + 1) 0 ∧
      (∀ x ∈ p.moves (t + 1) j, 0 ≤ x) ∧
      0 < (p.moves (t + 1) j).sum := by
  have hlink := hp.link ht
  rw [mem_reachableStates] at hj
  have hjlt : j < (p.chain.matrices.getD (t + 1) []).length :=
    hlink.height ▸ (List.getElem?_eq_some_iff.mp hj).1
  obtain ⟨rows, hrows⟩ : ∃ rows, p.chain.matrices[t + 1]? = some rows := by
    refine ⟨_, List.getElem?_eq_getElem ?_⟩
    rw [hp.linked.matrices, hp.stages]
    exact ht
  rw [List.getD_eq_getElem?_getD, hrows, Option.getD_some] at hjlt
  have hmoves : p.moves (t + 1) j = rows[j] := by simp [moves, hrows, hjlt]
  have hgetD : p.chain.matrices.getD (t + 1) [] = rows := by simp [hrows]
  rw [hgetD] at hlink
  refine ⟨?_, ?_, fun x hx => ?_, ?_⟩
  · rw [transition, entryFrom_natCast, entryAt, hrows]
    change entryFrom rows (j : ℤ) = _
    rw [entryFrom_natCast, entryAt, List.getElem?_eq_getElem hjlt, hmoves]
  · rw [hmoves]
    exact hlink.rectangular _ (List.getElem_mem hjlt)
  · rw [hmoves] at hx
    exact (hlink.range _ (List.getElem_mem hjlt) x hx).1
  · rw [hmoves]
    exact Chain.pos_of_nearOne (hlink.sum j rows[j] hj (List.getElem?_eq_getElem hjlt))

theorem Charted.transitionAt_nonneg {t j : ℕ} (ht : t + 1 < p.horizon)
    (hj : j ∈ p.reachableStates t) (k : ℕ) :
    0 ≤ p.transitionAt (t + 1) j k := by
  change 0 ≤ (p.moves (t + 1) j).getD k 0
  rcases hk : (p.moves (t + 1) j)[k]? with _ | x
  · simp [hk]
  · simpa [hk] using (hp.transition_eq ht hj).2.2.1 x (List.mem_of_getElem? hk)

theorem Charted.wellFormed (hmodels : ∀ t k m,
      p.stageAt t k = some m → m.WellFormed ∧ m.sense = p.sense)
    (hprepared : p.prepared = false) : p.WellFormed where
  models := fun t k m _ hm => hmodels t k m hm
  reachable := fun t _ k hk => hp.exists_stageAt.mpr (hp.lt_counts hk).2
  start := ⟨hp.horizon, by simp [hp.reachableStates_zero]⟩
  closed := fun t j k ht hj hpos => (hp.mem_reachableStates_succ ht).mpr ⟨j, hj, hpos⟩
  unprepared := hprepared

/-! ### Enumerated steps -/

omit hp [IsStrictOrderedRing α] [Numeral α] in
private theorem zipIdx_eq_map (xs : List α) :
    xs.zipIdx = (List.range xs.length).map fun s => (xs.getD s 0, s) := by
  refine List.ext_getElem (by simp) fun s hs hs' => ?_
  have hlt : s < xs.length := by simpa using hs
  simp [hlt]

def stepsTo (p : Multistage α) (t k : ℕ) : ScenarioPath :=
  ((List.range (p.probabilitiesAt t k).length).filter
    fun s => decide ((p.probabilitiesAt t k).getD s 0 ≠ 0)).map
    fun (s : ℕ) => ((k : ℤ), (s : ℤ))

/-- The steps that are enumerated, by Markov states. -/
theorem Charted.successors_eq {t j : ℕ} (ht : t + 1 < p.horizon) (hj : j ∈ p.reachableStates t) :
    p.successors (t + 1 : ℕ) j = (List.range (p.moves (t + 1) j).length).flatMap fun k =>
      if p.transitionAt (t + 1) j k = 0 then [] else p.stepsTo (t + 1) k := by
  obtain ⟨htransition, hlength, -, -⟩ := hp.transition_eq ht hj
  rw [hp.counts_eq] at hlength
  rw [successors, htransition, List.flatMap_def, List.flatMap_def]
  dsimp only [Except.toOption, Option.getD_some]
  congr 1
  refine List.ext_getElem (by simp [hlength]) fun k hk hk' => ?_
  have hrow : k < (p.moves (t + 1) j).length := by simpa using hk'
  have hmodel : k < (p.models.getD (t + 1) []).length := hlength ▸ hrow
  have hx : (p.moves (t + 1) j)[k] = p.transitionAt (t + 1) j k := by
    change _ = (p.moves (t + 1) j).getD k 0
    simp [hrow]
  have hm : (p.models.getD (t + 1) [])[k].probabilities = p.probabilitiesAt (t + 1) k := by
    have hstage : p.stageAt (t + 1) k = some (p.models.getD (t + 1) [])[k] := by
      rw [stageAt, ← List.getElem?_eq_getElem hmodel, List.getD_eq_getElem?_getD]
      cases p.models[t + 1]? <;> rfl
    rw [probabilitiesAt, hstage]
    rfl
  have hzero (x : α) : Scalar.isZero x = decide (x = 0) := by
    rw [Scalar.isZero, ← Bool.decide_and]
    exact decide_eq_decide.mpr le_antisymm_iff.symm
  simp only [List.getElem_map, List.getElem_zipIdx, List.getElem_zip, List.getElem_range, hx, hm,
    hzero, zero_add,
    decide_eq_true_eq]
  split_ifs
  · rfl
  · rw [zipIdx_eq_map, List.filter_map, List.map_map, stepsTo]
    simp [Function.comp_def]

theorem Charted.mem_successors {t j : ℕ} (ht : t + 1 < p.horizon) (hj : j ∈ p.reachableStates t)
    {step : ℤ × ℤ} :
    step ∈ p.successors (t + 1 : ℕ) j ↔
    ∃ k s : ℕ, step = (↑k, ↑s) ∧ 0 < p.transitionAt (t + 1) j k ∧
      (p.probabilitiesAt (t + 1) k).getD s 0 ≠ 0 := by
  rw [hp.successors_eq ht hj, List.mem_flatMap]
  constructor
  · rintro ⟨k, -, hstep⟩
    split_ifs at hstep with hzero
    · cases hstep
    · obtain ⟨s, hs, rfl⟩ := List.mem_map.mp hstep
      have hpos := (hp.transitionAt_nonneg ht hj k).lt_of_ne (Ne.symm hzero)
      exact ⟨k, s, rfl, hpos, of_decide_eq_true (List.mem_filter.mp hs).2⟩
  · rintro ⟨k, s, rfl, hpos, hs⟩
    have hk : k < (p.moves (t + 1) j).length := by
      by_contra hk
      change 0 < (p.moves (t + 1) j).getD k 0 at hpos
      simp [List.getElem?_eq_none (not_lt.mp hk)] at hpos
    have hslt : s < (p.probabilitiesAt (t + 1) k).length := by
      by_contra hs'
      simp [List.getElem?_eq_none (not_lt.mp hs')] at hs
    refine ⟨k, List.mem_range.mpr hk, ?_⟩
    rw [if_neg hpos.ne']
    exact List.mem_map.mpr ⟨s, List.mem_filter.mpr
      ⟨List.mem_range.mpr hslt, decide_eq_true hs⟩, rfl⟩

/-- What is enumerated after a reachable state is reachable. -/
theorem Charted.reachable_of_mem_successors {t j : ℕ} (ht : t + 1 < p.horizon)
    (hj : j ∈ p.reachableStates t) {step : ℤ × ℤ} (hstep : step ∈ p.successors (t + 1 : ℕ) j) :
    ∃ k s : ℕ, step = (↑k, ↑s) ∧ k ∈ p.reachableStates (t + 1) := by
  obtain ⟨k, s, rfl, hpos, -⟩ := (hp.mem_successors ht hj).mp hstep
  exact ⟨k, s, rfl, (hp.mem_reachableStates_succ ht).mpr ⟨j, hj, hpos⟩⟩

/-- No step is enumerated twice. -/
theorem Charted.nodup_successors {t j : ℕ} (ht : t + 1 < p.horizon) (hj : j ∈ p.reachableStates t) :
    (p.successors (t + 1 : ℕ) j).Nodup := by
  rw [hp.successors_eq ht hj, List.nodup_flatMap]
  constructor
  · intro k _
    split_ifs
    · exact List.nodup_nil
    · refine List.Nodup.map (fun s s' h => ?_) (List.nodup_range.filter _)
      simpa using h
  · refine List.nodup_range.imp fun {k k'} hne step hstep hstep' => ?_
    dsimp only at hstep hstep'
    split_ifs at hstep hstep'
    · cases hstep
    · cases hstep
    · cases hstep'
    · obtain ⟨s, -, rfl⟩ := List.mem_map.mp hstep
      obtain ⟨s', -, h⟩ := List.mem_map.mp hstep'
      exact hne (by simpa using (congrArg Prod.fst h).symm)

/-! ### Drawn steps -/

variable [Source γ α] {g g' : γ}

omit hp [IsStrictOrderedRing α] [Numeral α] in
theorem drawStage_zero (p : Multistage α) (j : ℤ) (g : γ) :
    (p.drawStage 0 j).on g = (.ok (0, 0), g) := rfl

theorem Charted.drawState_on {t j : ℕ} (ht : t + 1 < p.horizon) (hj : j ∈ p.reachableStates t) :
    (p.drawState (t + 1 : ℕ) j).on g =
      (Source.choose (p.moves (t + 1) j).length (p.moves (t + 1) j) : Run α γ ℕ).on g := by
  obtain ⟨htransition, hlength, -, -⟩ := hp.transition_eq ht hj
  have hcount : (entryFrom p.chain.counts (t + 1 : ℕ) : Except (Fault α) ℕ) = .ok
      (p.moves (t + 1) j).length := by
    have hlt : t + 1 < p.chain.counts.length := hp.stages ▸ ht
    rw [entryFrom_natCast, entryAt, List.getElem?_eq_getElem hlt, hlength]
    simp [hlt]
  have hne : ¬ ((t + 1 : ℕ) : ℤ) = 0 := by omega
  unfold drawState
  rw [if_neg hne, hcount, htransition]
  rfl

/-- Whatever Markov state is drawn after a reachable one is moved to with positive probability. -/
theorem Charted.pos_of_drawState (hg : Lawful γ) {t j k : ℕ} (ht : t + 1 < p.horizon)
    (hj : j ∈ p.reachableStates t) (h : (p.drawState (t + 1 : ℕ) j).on g = (.ok k, g')) :
    0 < p.transitionAt (t + 1) j k := by
  obtain ⟨-, -, hnonneg, hsum⟩ := hp.transition_eq ht hj
  rw [hp.drawState_on ht hj] at h
  simp only [Run.on, Source.choose] at h
  split_ifs at h
  · cases h
  · obtain ⟨hx, hx'⟩ := hg.uniform g
    obtain rfl := Except.ok.inj (congrArg Prod.fst h)
    exact Source.position_pos hnonneg hsum hx hx'
  · cases h

end

end Recourse.Multistage
