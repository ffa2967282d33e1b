import Recourse.Proofs.Multistage.Paths

/-! The expectation of what a path is worth, taken stage after stage: over the states that a row of
a transition matrix leads to, and over their samples. Weighing the enumerated paths gives the same,
although the branches of probability zero are not enumerated. -/

namespace Recourse.Multistage

open Finset
open RiskMeasure (Distribution)

variable {α : Type} [Field α] [LinearOrder α] {p : Multistage α}

def sampleMean (p : Multistage α) (t k : ℕ) (f : ℕ → α) : α :=
  ∑ s ∈ range (p.probabilitiesAt t k).length, (p.probabilitiesAt t k).getD s 0 * f s

/-- The expectation over the states of stage `t` that a Markov state leads to, and over their
samples. -/
def stepMean (p : Multistage α) (t j : ℕ) (f : ℕ → ℕ → α) : α :=
  ∑ k ∈ range (p.moves t j).length, p.transitionAt t j k * p.sampleMean t k (f k)

/-- The nested expectation of a function of what follows on a Markov state, for a number of
stages. -/
def expectationFrom (p : Multistage α) : ℕ → ℕ → ℕ → (ScenarioPath → α) → α
  | 0, _, _, f => f []
  | n + 1, t, j, f => p.stepMean t j
      fun k s => p.expectationFrom n (t + 1) k fun path => f ((↑k, ↑s) :: path)

def expectation (p : Multistage α) (f : ScenarioPath → α) : α :=
  p.sampleMean 0 0 fun s => p.expectationFrom (p.horizon - 1) 1 0 fun path => f ((0, ↑s) :: path)

def stepProbability (p : Multistage α) (t j : ℕ) (step : ℤ × ℤ) : α :=
  p.transitionAt t j step.1.toNat * (p.probabilitiesAt t step.1.toNat).getD step.2.toNat 0

def likelihood (p : Multistage α) : ℕ → ℕ → ScenarioPath → α
  | _, _, [] => 1
  | t, j, step :: path => p.stepProbability t j step * p.likelihood (t + 1) step.1.toNat path

/-! ### Means -/

theorem sampleMean_one {t k : ℕ} (h : Distribution (p.probabilitiesAt t k)) :
    (p.sampleMean t k fun _ => 1) = 1 := by
  simp only [sampleMean, mul_one]
  rw [← Scalar.sum_eq_sum_range le_rfl, h.sum]

/-- What has no probability may be left out of the mean over samples. -/
theorem sampleMean_eq_sum (p : Multistage α) (t k : ℕ) (f : ℕ → α) : p.sampleMean t k f =
    ((p.stepsTo t k).map fun step => (p.probabilitiesAt t k).getD step.2.toNat 0 *
      f step.2.toNat).sum := by
  rw [sampleMean, stepsTo, List.map_map, ← Finset.sum_filter_of_ne
    (p := fun s => (p.probabilitiesAt t k).getD s 0 ≠ 0)
    fun s _ hs => left_ne_zero_of_mul hs]
  have hlist : (range (p.probabilitiesAt t k).length).filter
      (fun s => (p.probabilitiesAt t k).getD s 0 ≠ 0) =
      ((List.range (p.probabilitiesAt t k).length).filter
        fun s => decide ((p.probabilitiesAt t k).getD s 0 ≠ 0)).toFinset := by
    ext s
    simp
  rw [hlist, List.sum_toFinset _ (List.nodup_range.filter _)]
  simp [Function.comp_def]

section

variable [IsStrictOrderedRing α] [Numeral α] (hp : p.Charted)
include hp

theorem Charted.stepMean_eq_sum {t j : ℕ} (ht : t + 1 < p.horizon) (hj : j ∈ p.reachableStates t)
    (f : ℤ × ℤ → α) :
    (p.stepMean (t + 1) j fun k s => f (↑k, ↑s)) =
      ((p.successors (t + 1 : ℕ) j).map
        fun step => p.stepProbability (t + 1) j step * f step).sum := by
  have hstate (k : ℕ) : p.transitionAt (t + 1) j k * p.sampleMean (t + 1) k (fun s => f (↑k, ↑s)) =
      ((if p.transitionAt (t + 1) j k = 0 then [] else p.stepsTo (t + 1) k).map
        fun step => p.stepProbability (t + 1) j step * f step).sum := by
    split_ifs with hzero
    · simp [hzero]
    · rw [sampleMean_eq_sum, ← List.sum_map_mul_left, stepsTo, List.map_map, List.map_map]
      congr 1
      refine List.map_congr_left fun s _ => ?_
      simp [stepProbability, mul_assoc]
  rw [hp.successors_eq ht hj, List.map_flatMap, List.flatMap_def, List.sum_flatten,
    List.map_map, stepMean,
    ← List.toFinset_range, List.sum_toFinset _ List.nodup_range]
  congr 1
  exact List.map_congr_left fun k _ => hstate k

/-- The weights of the enumerated steps make up the nested expectation. -/
theorem Charted.expectationFrom_eq_sum {n t j : ℕ} (hn : t + n < p.horizon)
    (hj : j ∈ p.reachableStates t) (f : ScenarioPath → α) : p.expectationFrom n (t + 1) j f =
      ((p.continuations n (t + 1) j).map fun path => p.likelihood (t + 1) j path * f path).sum := by
  induction n generalizing t j f with
  | zero => simp [expectationFrom, continuations, likelihood]
  | succ n ih =>
    have ht : t + 1 < p.horizon := by omega
    have hstep (step : ℤ × ℤ) (hmem : step ∈ p.successors (t + 1 : ℕ) j) :
        p.stepProbability (t + 1) j step *
          p.expectationFrom n (t + 2) step.1.toNat
          (fun path => f ((↑step.1.toNat, ↑step.2.toNat) :: path)) =
        (((p.continuations n (t + 2) step.1).map (step :: ·)).map
          fun path => p.likelihood (t + 1) j path * f path).sum := by
      obtain ⟨k, s, rfl, hk⟩ := hp.reachable_of_mem_successors ht hj hmem
      simp only [Int.toNat_natCast]
      rw [ih (by omega) hk, ← List.sum_map_mul_left, List.map_map]
      congr 1
      refine List.map_congr_left fun path _ => ?_
      simp [likelihood, mul_assoc]
    have hmean := hp.stepMean_eq_sum ht hj fun step =>
      p.expectationFrom n (t + 2) step.1.toNat fun path =>
        f ((↑step.1.toNat, ↑step.2.toNat) :: path)
    simp only [Int.toNat_natCast] at hmean
    rw [expectationFrom, hmean, continuations, List.map_flatMap, List.flatMap_def, List.sum_flatten,
      List.map_map]
    congr 1
    exact List.map_congr_left hstep

/-! ### Weights -/

omit [IsStrictOrderedRing α] [Numeral α] hp in
private theorem entryFrom_getD {xs : List α} {k : ℕ} (h : xs.getD k 0 ≠ 0) :
    (entryFrom xs (k : ℤ) : Except (Fault α) α) = .ok (xs.getD k 0) := by
  rw [entryFrom_natCast, entryAt]
  rcases hk : xs[k]? with _ | x
  · simp [hk] at h
  · simp [hk]

theorem Charted.weightFrom_eq {n t j : ℕ} (hn : t + n < p.horizon) (hj : j ∈ p.reachableStates t)
    {path : ScenarioPath} (hpath : path ∈ p.continuations n (t + 1) j) (w : α) :
    p.weightFrom (t + 1) (some ↑j) w path = .ok (w * p.likelihood (t + 1) j path) := by
  induction n generalizing t j path w with
  | zero =>
    obtain rfl := List.mem_singleton.mp hpath
    rw [weightFrom, likelihood, mul_one]
  | succ n ih =>
    have ht : t + 1 < p.horizon := by omega
    obtain ⟨step, hstep, hpath⟩ := List.mem_flatMap.mp hpath
    obtain ⟨later, hlater, rfl⟩ := List.mem_map.mp hpath
    obtain ⟨k, s, rfl, hpos, hne⟩ := (hp.mem_successors ht hj).mp hstep
    have hk := (hp.mem_reachableStates_succ ht).mpr ⟨j, hj, hpos⟩
    obtain ⟨m, hm, hmodel⟩ := hp.exists_model (hp.lt_counts hk).2
    have hprobabilities : p.probabilitiesAt (t + 1) k = m.probabilities := by
      rw [probabilitiesAt, hm]; rfl
    have hweight : p.stepWeight (t + 1 : ℕ) (some ↑j) (↑k, ↑s) =
        .ok (p.transitionAt (t + 1) j k, (p.probabilitiesAt (t + 1) k).getD s 0) := by
      have hmove : (entryFrom (p.moves (t + 1) j) (k : ℤ) : Except (Fault α) α) = .ok
          (p.transitionAt (t + 1) j k) :=
        entryFrom_getD (ne_of_gt hpos)
      unfold stepWeight
      dsimp only
      rw [(hp.transition_eq ht hj).1]
      change (entryFrom (p.moves (t + 1) j) (k : ℤ) >>= _) = _
      rw [hmove, hmodel]
      change (entryFrom m.probabilities (s : ℤ) >>= _) = _
      rw [← hprobabilities, entryFrom_getD hne]
      rfl
    rw [weightFrom, hweight]
    change p.weightFrom (t + 1 + 1) (some ↑k) _ later = _
    rw [ih (by omega) hk hlater, likelihood, stepProbability]
    simp only [Int.toNat_natCast]
    congr 1
    ring

variable (hs : p.Stochastic)
include hs

theorem Charted.likelihood_pos {n t j : ℕ} (hn : t + n < p.horizon) (hj : j ∈ p.reachableStates t)
    {path : ScenarioPath} (hpath : path ∈ p.continuations n (t + 1) j) :
    0 < p.likelihood (t + 1) j path := by
  induction n generalizing t j path with
  | zero =>
    obtain rfl := List.mem_singleton.mp hpath
    exact zero_lt_one
  | succ n ih =>
    have ht : t + 1 < p.horizon := by omega
    obtain ⟨step, hstep, hpath⟩ := List.mem_flatMap.mp hpath
    obtain ⟨later, hlater, rfl⟩ := List.mem_map.mp hpath
    obtain ⟨k, s, rfl, hpos, hne⟩ := (hp.mem_successors ht hj).mp hstep
    have hk := (hp.mem_reachableStates_succ ht).mpr ⟨j, hj, hpos⟩
    obtain ⟨m, hm, -⟩ := hp.exists_model (hp.lt_counts hk).2
    have hsample : 0 ≤ (p.probabilitiesAt (t + 1) k).getD s 0 := by
      rw [probabilitiesAt, hm]
      exact (hs.samples (t + 1) k m hk hm).1.getD_nonneg s
    rw [likelihood, stepProbability]
    simp only [Int.toNat_natCast]
    exact mul_pos (mul_pos hpos (hsample.lt_of_ne hne.symm)) (ih (by omega) hk hlater)

theorem Charted.expectationFrom_one {n t j : ℕ} (hn : t + n < p.horizon)
    (hj : j ∈ p.reachableStates t) :
    (p.expectationFrom n (t + 1) j fun _ => 1) = 1 := by
  induction n generalizing t j with
  | zero => rfl
  | succ n ih =>
    have ht : t + 1 < p.horizon := by omega
    have hstate (k : ℕ) : p.transitionAt (t + 1) j k *
        p.sampleMean (t + 1) k (fun _ => p.expectationFrom n (t + 2) k fun _ => 1) = p.transitionAt
        (t + 1) j k := by
      rcases (hp.transitionAt_nonneg ht hj k).eq_or_lt with hzero | hpos
      · rw [← hzero, zero_mul]
      · have hk := (hp.mem_reachableStates_succ ht).mpr ⟨j, hj, hpos⟩
        obtain ⟨m, hm, -⟩ := hp.exists_model (hp.lt_counts hk).2
        have hdist : Distribution (p.probabilitiesAt (t + 1) k) := by
          rw [probabilitiesAt, hm]
          exact (hs.samples (t + 1) k m hk hm).1
        rw [ih (by omega) hk, sampleMean_one hdist, mul_one]
    rw [expectationFrom, stepMean, Finset.sum_congr rfl fun k _ => hstate k]
    exact (Scalar.sum_eq_sum_range le_rfl).symm.trans (hs.moves t j ht hj).sum

theorem Charted.continuations_ne_nil {n t j : ℕ} (hn : t + n < p.horizon)
    (hj : j ∈ p.reachableStates t) :
    p.continuations n (t + 1) j ≠ [] := by
  intro hnil
  have hone := hp.expectationFrom_one hs hn hj
  rw [hp.expectationFrom_eq_sum hn hj, hnil] at hone
  simp at hone

theorem Charted.expectationFrom_const_add {n t j : ℕ} (hn : t + n < p.horizon)
    (hj : j ∈ p.reachableStates t) (c : α) (f : ScenarioPath → α) :
    (p.expectationFrom n (t + 1) j fun path => c + f path) = c + p.expectationFrom n
    (t + 1) j f := by
  have hone := hp.expectationFrom_one hs hn hj
  rw [hp.expectationFrom_eq_sum hn hj] at hone
  simp only [mul_one] at hone
  rw [hp.expectationFrom_eq_sum hn hj, hp.expectationFrom_eq_sum hn hj]
  simp only [mul_add, List.sum_map_add, List.sum_map_mul_right, hone, one_mul]

end

/-! ### Paths -/

/-- Whether there is nothing to choose from on the first stage. -/
def Certain (p : Multistage α) : Prop := ∀ m, p.stageAt 0 0 = some m → m.sampleCount = 1

omit [Field α] [LinearOrder α] in
/-- Preparation makes sure that the first stage is certain. -/
theorem certain_of_check (h : p.check = .ok ()) : p.Certain := by
  intro m hm
  obtain ⟨_, hfirst, -⟩ := ok_of_bind h
  have hmodel : p.model 0 0 = .ok m := by
    change p.model (0 : ℕ) (0 : ℕ) = _
    rw [model_eq, hm]
  rw [checkFirst, hmodel] at hfirst
  by_contra hmany
  change (if m.sampleCount ≠ 1 then _ else _) = _ at hfirst
  rw [if_pos hmany] at hfirst
  cases hfirst

section

variable [IsStrictOrderedRing α] [Numeral α] (hp : p.Charted) (hs : p.Stochastic)
  (hfirst : p.Certain)
include hp hs hfirst

theorem Charted.probabilitiesAt_zero : p.probabilitiesAt 0 0 = [1] := by
  have hstart : 0 ∈ p.reachableStates 0 := by
    rw [hp.reachableStates_zero]
    exact List.mem_singleton_self 0
  obtain ⟨m, hm, -⟩ := hp.exists_model (hp.lt_counts hstart).2
  obtain ⟨hdist, hlength⟩ := hs.samples 0 0 m hstart hm
  rw [hfirst m hm] at hlength
  obtain ⟨x, hx⟩ := List.length_eq_one_iff.mp hlength
  have hsum := hdist.sum
  rw [hx, List.sum_singleton] at hsum
  rw [probabilitiesAt, hm, Option.map_some, Option.getD_some, hx, hsum]

theorem Charted.expectation_eq (f : ScenarioPath → α) :
    p.expectation f = p.expectationFrom (p.horizon - 1) 1 0 fun path => f ((0, 0) :: path) := by
  simp [expectation, sampleMean, hp.probabilitiesAt_zero hs hfirst]

/-- The weight of a path is the probability of its steps. -/
theorem Charted.weight_eq {path : ScenarioPath} (hpath : path ∈ p.paths) :
    p.weight path = .ok (p.likelihood 1 0 path.tail) := by
  obtain ⟨hstart, hn⟩ := hp.start_mem
  rw [paths_eq] at hpath
  obtain ⟨later, hlater, rfl⟩ := List.mem_map.mp hpath
  obtain ⟨m, hm, hmodel⟩ := hp.exists_model (hp.lt_counts hstart).2
  have hone : m.probabilities = [1] := by
    have hzero := hp.probabilitiesAt_zero hs hfirst
    rwa [probabilitiesAt, hm] at hzero
  have hstep : p.stepWeight (0 : ℕ) none (0, 0) = .ok (1, 1) := by
    unfold stepWeight
    change (p.model (0 : ℕ) (0 : ℕ) >>= _) = _
    rw [hmodel]
    change (entryFrom m.probabilities 0 >>= _) = _
    rw [hone]
    rfl
  rw [weight, weightFrom, hstep]
  change p.weightFrom (0 + 1) (some ((0 : ℕ) : ℤ)) (1 * 1 * 1) later = _
  rw [hp.weightFrom_eq hn hstart hlater]
  simp

/-- The weights of all paths: they are positive, they sum up to one, and weighing with them is
taking the nested expectation. -/
theorem Charted.weights_spec : ∃ weights,
    p.paths.mapM p.weight = .ok weights ∧ (∀ w ∈ weights, 0 < w) ∧
    weights.sum = 1 ∧ ∀ f, Scalar.dot (p.paths.map f) weights = p.expectation f := by
  obtain ⟨hstart, hn⟩ := hp.start_mem
  have hexpectation (f : ScenarioPath → α) :
      (p.paths.map fun path => f path * p.likelihood 1 0 path.tail).sum = p.expectation f := by
    rw [hp.expectation_eq hs hfirst, hp.expectationFrom_eq_sum hn hstart, paths_eq, List.map_map]
    congr 1
    exact List.map_congr_left fun path _ => mul_comm _ _
  refine ⟨p.paths.map fun path => p.likelihood 1 0 path.tail, ?_, fun w hw => ?_, ?_, fun f => ?_⟩
  · exact mapM_ok fun path hpath => hp.weight_eq hs hfirst hpath
  · obtain ⟨path, hpath, rfl⟩ := List.mem_map.mp hw
    rw [paths_eq] at hpath
    obtain ⟨later, hlater, rfl⟩ := List.mem_map.mp hpath
    exact hp.likelihood_pos hs hn hstart hlater
  · have hone := hexpectation fun _ => 1
    simp only [one_mul] at hone
    rw [hone, hp.expectation_eq hs hfirst, hp.expectationFrom_one hs hn hstart]
  · rw [Scalar.dot, Scalar.total_eq_sum, List.zipWith_map_left, List.zipWith_map_right,
      List.zipWith_self, hexpectation]

end

end Recourse.Multistage
