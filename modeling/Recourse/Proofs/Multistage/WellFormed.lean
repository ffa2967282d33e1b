import Recourse.Proofs.Multistage.CostToGo
import Recourse.Proofs.Risk.Weights
import Recourse.Proofs.Stage.Joined
import Recourse.Multistage.Setup

/-! Problems as they are written, before they are prepared: what their parts have to be, and what
the checks that prepare them establish about neighbouring stages. -/

namespace Recourse.Multistage

open RiskMeasure (Distribution)

variable {α : Type} [Field α] [LinearOrder α] {p : Multistage α}

def moves (p : Multistage α) (t j : ℕ) : List α := (p.chain.matrices.getD t []).getD j []

/-- A problem whose reachable Markov states have models, which are not joined yet. What a reachable
state moves to with positive probability is reachable. -/
structure WellFormed (p : Multistage α) : Prop where
  models : ∀ t k m, k ∈ p.reachableStates t → p.stageAt t k = some m →
    m.WellFormed ∧ m.sense = p.sense
  reachable : ∀ t < p.horizon, ∀ k ∈ p.reachableStates t, ∃ m, p.stageAt t k = some m
  start : 0 < p.horizon ∧ 0 ∈ p.reachableStates 0
  closed : ∀ t j k, t + 1 < p.horizon → j ∈ p.reachableStates t → 0 < p.transitionAt (t + 1) j k →
    k ∈ p.reachableStates (t + 1)
  unprepared : p.prepared = false

/-- A problem all of whose probabilities add up to one exactly, with a probability for each
sample. -/
structure Stochastic (p : Multistage α) : Prop where
  samples : ∀ t k m, k ∈ p.reachableStates t → p.stageAt t k = some m →
    Distribution m.probabilities ∧ m.probabilities.length = m.sampleCount
  moves : ∀ t j, t + 1 < p.horizon → j ∈ p.reachableStates t → Distribution (p.moves (t + 1) j)

def Bounded [Numeral α] (p : Multistage α) : Prop :=
  ∀ b, p.outline.bound.asNumber = .ok b →
    ∀ t k state noise q, t + 1 < p.horizon → k ∈ p.reachableStates t →
    p.CostToGoAt t k state noise q → p.sense.orient b ≤ p.sense.orient q

/-! ### Reachable models -/

section

omit [Field α] [LinearOrder α]

theorem model_eq (p : Multistage α) (t k : ℕ) : p.model t k =
    match p.stageAt t k with
    | some m => .ok m
    | none => .error .position := by
  rw [model, entryFrom_natCast, stageAt, entryAt]
  rcases p.models[t]? with _ | ms
  · rfl
  · change (entryFrom ms (k : ℤ) : Except (Fault α) _) = _
    rw [entryFrom_natCast, entryAt]
    rcases hk : ms[k]? with _ | m <;> simp [hk]

theorem mem_reachableStates {t k : ℕ} :
    k ∈ p.reachableStates t ↔ (p.chain.reachable.getD t [])[k]? = some true := by
  simp [reachableStates, List.mem_zipIdx_iff_getElem?]

theorem nodup_reachableStates (t : ℕ) : (p.reachableStates t).Nodup := by
  have hpositions : ((p.chain.reachable.getD t []).zipIdx.map (·.2)).Nodup := by
    rw [List.zipIdx_map_snd]
    exact List.nodup_range'
  exact hpositions.sublist (List.filter_sublist.map _)

theorem stageAt_eq_getElem? (p : Multistage α) (t k : ℕ) :
    p.stageAt t k = (p.models.getD t [])[k]? := by
  rw [stageAt, List.getD_eq_getElem?_getD]
  cases p.models[t]? <;> rfl

theorem mem_reachableModels {t : ℕ} {m : Stage α} :
    m ∈ p.reachableModels t ↔ ∃ k ∈ p.reachableStates t, p.stageAt t k = some m := by
  simp only [reachableModels, List.mem_filterMap, mem_reachableStates, stageAt_eq_getElem?,
    Prod.exists]
  constructor
  · rintro ⟨m', reached, hmem, hsome⟩
    obtain ⟨k, hk⟩ := List.mem_iff_getElem?.mp hmem
    obtain ⟨hm, hreached⟩ := List.getElem?_zip_eq_some.mp hk
    cases reached with
    | false => cases hsome
    | true =>
      obtain rfl := Option.some.inj hsome
      exact ⟨k, hreached, hm⟩
  · rintro ⟨k, hreached, hm⟩
    exact ⟨m, true, List.mem_iff_getElem?.mpr
      ⟨k, List.getElem?_zip_eq_some.mpr ⟨hm, hreached⟩⟩, rfl⟩

theorem fst_mem_of_mem_places {t : ℕ} {place : ℕ × ℕ} (h : place ∈ p.places t) :
    place.1 ∈ p.reachableStates t := by
  obtain ⟨k, hk, hplace⟩ := List.mem_flatMap.mp h
  obtain ⟨s, -, rfl⟩ := List.mem_map.mp hplace
  exact hk

/-- Whether noise is carried on to a stage depends only on the reachable models there. -/
theorem isLagged_iff {t : ℕ} :
    p.isLagged t = true ↔ ∃ k ∈ p.reachableStates t,
    ∃ m, p.stageAt t k = some m ∧ m.noiseCopies ≠ [] := by
  simp only [isLagged, List.any_eq_true, mem_reachableModels]
  constructor
  · rintro ⟨m, ⟨k, hk, hm⟩, hne⟩
    exact ⟨k, hk, m, hm, by simpa using hne⟩
  · rintro ⟨k, hk, m, hm, hne⟩
    exact ⟨m, ⟨k, hk, hm⟩, by simpa using hne⟩

end

/-! ### Neighbouring stages -/

/-- What the checks establish: the reachable models of a stage take over what those of the stage
before carry on. -/
structure Aligned (p : Multistage α) : Prop where
  copies : ∀ t j k m m', t + 1 < p.horizon → j ∈ p.reachableStates t → p.stageAt t j = some m →
    k ∈ p.reachableStates (t + 1) → p.stageAt (t + 1) k = some m' →
      m'.copies.length = m.states.length
  noiseCopies : ∀ t j k m m', t + 1 < p.horizon → j ∈ p.reachableStates t → p.stageAt t j = some m →
    k ∈ p.reachableStates (t + 1) → p.stageAt (t + 1) k = some m' →
    m'.noiseCopies.length = if p.isLagged (t + 1) then m.noise.length else 0

section

omit [Field α] [LinearOrder α]

private theorem alike_of_check {t : ℕ} {first m : Stage α} (h : checkAlike t first m = .ok ()) :
    m.states.length = first.states.length ∧ m.noise.length = first.noise.length ∧
      m.noiseCopies.length = first.noiseCopies.length := by
  unfold checkAlike at h
  split_ifs at h
  all_goals cases h
  omega

private theorem incoming_of_check {t : ℕ} {previous m : Stage α}
    (h : checkIncoming t previous m = .ok ()) :
    m.copies.length = previous.states.length ∧
      (m.noiseCopies.length ≠ 0 → m.noiseCopies.length = previous.noise.length) := by
  unfold checkIncoming at h
  split_ifs at h
  all_goals cases h
  omega

private theorem alike_of_checkStage {t : ℕ} (h : p.checkStage t = .ok ()) :
    ∃ first ∈ p.reachableModels t, ∀ m ∈ p.reachableModels t,
      m.states.length = first.states.length ∧ m.noise.length = first.noise.length ∧
        m.noiseCopies.length = first.noiseCopies.length := by
  unfold checkStage at h
  rcases hmodels : p.reachableModels t with _ | ⟨first, models⟩
  · rw [hmodels] at h
    cases h
  · rw [hmodels] at h
    obtain ⟨_, halike, -⟩ := ok_of_bind h
    exact ⟨first, by simp, fun m hm => alike_of_check (ok_of_forM halike hm)⟩

private theorem incoming_of_checkStage {t : ℕ} (h : p.checkStage (t + 1) = .ok ()) :
    ∃ previous ∈ p.reachableModels t, ∀ m ∈ p.reachableModels (t + 1),
      m.copies.length = previous.states.length ∧
        (m.noiseCopies.length ≠ 0 → m.noiseCopies.length = previous.noise.length) := by
  unfold checkStage at h
  rcases hmodels : p.reachableModels (t + 1) with _ | ⟨first, models⟩
  · rw [hmodels] at h
    cases h
  · rw [hmodels] at h
    obtain ⟨_, -, h⟩ := ok_of_bind h
    rw [if_neg (Nat.succ_ne_zero t), Nat.add_sub_cancel] at h
    rcases hprevious : p.reachableModels t with _ | ⟨previous, rest⟩
    · rw [hprevious] at h
      cases h
    · rw [hprevious] at h
      exact ⟨previous, by simp, fun m hm => incoming_of_check (ok_of_forM h hm)⟩

/-- A problem that passes the checks has a reachable model on each stage. -/
theorem exists_reachable_of_check (h : p.check = .ok ()) {t : ℕ} (ht : t < p.horizon) :
    ∃ k ∈ p.reachableStates t, ∃ m, p.stageAt t k = some m := by
  obtain ⟨_, -, hstages⟩ := ok_of_bind h
  obtain ⟨first, hfirst, -⟩ := alike_of_checkStage (ok_of_forM hstages (List.mem_range.mpr ht))
  obtain ⟨k, hk, hm⟩ := mem_reachableModels.mp hfirst
  exact ⟨k, hk, first, hm⟩

theorem aligned_of_check (h : p.check = .ok ()) : p.Aligned := by
  obtain ⟨_, -, hstages⟩ := ok_of_bind h
  have hstage (t : ℕ) (ht : t < p.horizon) : p.checkStage t = .ok () :=
    ok_of_forM hstages (List.mem_range.mpr ht)
  constructor
  · intro t j k m m' ht hj hm hk hm'
    obtain ⟨previous, hprevious, hin⟩ := incoming_of_checkStage (hstage (t + 1) ht)
    obtain ⟨first, -, hfirst⟩ := alike_of_checkStage (hstage t (by omega))
    rw [(hin m' (mem_reachableModels.mpr ⟨k, hk, hm'⟩)).1, (hfirst previous hprevious).1,
      (hfirst m (mem_reachableModels.mpr ⟨j, hj, hm⟩)).1]
  · intro t j k m m' ht hj hm hk hm'
    obtain ⟨previous, hprevious, hin⟩ := incoming_of_checkStage (hstage (t + 1) ht)
    obtain ⟨first, -, hfirst⟩ := alike_of_checkStage (hstage t (by omega))
    obtain ⟨next, -, hnext⟩ := alike_of_checkStage (hstage (t + 1) ht)
    have hm'mem : m' ∈ p.reachableModels (t + 1) := mem_reachableModels.mpr ⟨k, hk, hm'⟩
    split_ifs with hlagged
    · obtain ⟨k', hk', n, hn, hne⟩ := isLagged_iff.mp hlagged
      have hsame := (hnext n (mem_reachableModels.mpr ⟨k', hk', hn⟩)).2.2
      have hpos : n.noiseCopies.length ≠ 0 := by simpa using hne
      have hm'pos : m'.noiseCopies.length ≠ 0 := by
        rw [(hnext m' hm'mem).2.2, ← hsame]
        exact hpos
      rw [(hin m' hm'mem).2 hm'pos, (hfirst previous hprevious).2.1,
        (hfirst m (mem_reachableModels.mpr ⟨j, hj, hm⟩)).2.1]
    · by_contra hne
      exact hlagged (isLagged_iff.mpr ⟨k, hk, m', hm', by simpa using hne⟩)

end

/-! ### The probabilities of outcomes -/

theorem map_placeWeight {t j k : ℕ} {m : Stage α} (hm : p.stageAt t k = some m)
    (hlen : m.probabilities.length = m.sampleCount) :
    (p.placesOf t k).map (p.placeWeight t j) = m.probabilities.map (p.transitionAt t j k * ·) := by
  rw [placesOf, hm, Option.map_some, Option.getD_some, List.map_map]
  refine List.ext_getElem (by simp [hlen]) fun s hs hs' => ?_
  have hlt : s < m.probabilities.length := by simpa using hs'
  simp [placeWeight, hm, List.getD_eq_getElem?_getD, hlt]

/-- If a Markov state moves to nothing but reachable states, a sum over all its moves is one over
those. -/
theorem sum_transitions_of_closed {t j : ℕ}
    (hclosed : ∀ k, 0 < p.transitionAt t j k → k ∈ p.reachableStates t)
    (hmoves : Distribution (p.moves t j)) (f : ℕ → α) :
    ((p.reachableStates t).map fun k => p.transitionAt t j k * f k).sum =
      ∑ k ∈ Finset.range (p.moves t j).length, p.transitionAt t j k * f k := by
  have hzero : ∀ k, k ∉ p.reachableStates t → p.transitionAt t j k * f k = 0 := by
    intro k hk
    have hnone : p.transitionAt t j k = 0 :=
      le_antisymm (not_lt.mp fun hpos => hk (hclosed k hpos)) (hmoves.getD_nonneg k)
    rw [hnone, zero_mul]
  calc ((p.reachableStates t).map fun k => p.transitionAt t j k * f k).sum
      = ∑ k ∈ (p.reachableStates t).toFinset, p.transitionAt t j k * f k :=
        (List.sum_toFinset _ (nodup_reachableStates _)).symm
    _ = ∑ k ∈ (p.reachableStates t).toFinset ∪ Finset.range (p.moves t j).length,
      p.transitionAt t j k * f k := by
        refine Finset.sum_subset Finset.subset_union_left fun k _ hk => hzero k ?_
        simpa using hk
    _ = ∑ k ∈ Finset.range (p.moves t j).length, p.transitionAt t j k * f k := by
        refine (Finset.sum_subset Finset.subset_union_right fun k _ hk => ?_).symm
        have hnone : p.transitionAt t j k = 0 := by
          change (p.moves t j).getD k 0 = 0
          rw [List.getD_eq_getElem?_getD, List.getElem?_eq_none (by simpa using hk)]
          rfl
        rw [hnone, zero_mul]

/-- What is not reachable is not moved to, so a sum over all moves is one over the reachable
states. -/
theorem sum_transitions (hp : p.WellFormed) (hs : p.Stochastic) {t j : ℕ} (ht : t + 1 < p.horizon)
    (hj : j ∈ p.reachableStates t) (f : ℕ → α) :
    ((p.reachableStates (t + 1)).map fun k => p.transitionAt (t + 1) j k * f k).sum =
      ∑ k ∈ Finset.range (p.moves (t + 1) j).length, p.transitionAt (t + 1) j k * f k :=
  sum_transitions_of_closed (fun k => hp.closed t j k ht hj) (hs.moves t j ht hj) f

private theorem sum_moves {t j : ℕ}
    (hclosed : ∀ k, 0 < p.transitionAt t j k → k ∈ p.reachableStates t)
    (hmoves : Distribution (p.moves t j)) :
    ((p.reachableStates t).map (p.transitionAt t j)).sum = 1 := by
  have hsum := sum_transitions_of_closed hclosed hmoves fun _ => 1
  simp only [mul_one] at hsum
  rw [hsum]
  exact (Scalar.sum_eq_sum_range le_rfl).symm.trans hmoves.sum

variable [IsStrictOrderedRing α]

/-- Moves of a distribution to reachable states, each of which has a distribution of its samples,
are a distribution of the outcomes. -/
theorem distribution_places_of_closed {t j : ℕ}
    (hclosed : ∀ k, 0 < p.transitionAt t j k → k ∈ p.reachableStates t)
    (hmoves : Distribution (p.moves t j))
    (hsamples : ∀ k ∈ p.reachableStates t,
      ∃ m, p.stageAt t k = some m ∧ Distribution m.probabilities ∧
      m.probabilities.length = m.sampleCount) :
    Distribution ((p.places t).map (p.placeWeight t j)) where
  nonneg := by
    intro x hx
    obtain ⟨place, hplace, rfl⟩ := List.mem_map.mp hx
    obtain ⟨k, hk, hplace⟩ := List.mem_flatMap.mp hplace
    obtain ⟨s, -, rfl⟩ := List.mem_map.mp hplace
    obtain ⟨m, hm, hdist, -⟩ := hsamples k hk
    refine mul_nonneg (hmoves.getD_nonneg k) ?_
    simpa [hm] using hdist.getD_nonneg s
  sum := by
    have hmodel : ∀ k ∈ p.reachableStates t,
        ((p.placesOf t k).map (p.placeWeight t j)).sum = p.transitionAt t j k := by
      intro k hk
      obtain ⟨m, hm, hdist, hlen⟩ := hsamples k hk
      rw [map_placeWeight hm hlen, List.sum_map_mul_left, List.map_id', hdist.sum, mul_one]
    rw [places, List.map_flatMap, List.flatMap_def, List.sum_flatten, List.map_map]
    exact (congrArg List.sum (List.map_congr_left hmodel)).trans (sum_moves hclosed hmoves)

theorem distribution_places (hp : p.WellFormed) (hs : p.Stochastic) {t j : ℕ}
    (ht : t + 1 < p.horizon) (hj : j ∈ p.reachableStates t) :
    Distribution ((p.places (t + 1)).map (p.placeWeight (t + 1) j)) := by
  refine distribution_places_of_closed (fun k => hp.closed t j k ht hj) (hs.moves t j ht hj)
    fun k hk => ?_
  obtain ⟨m, hm⟩ := hp.reachable (t + 1) ht k hk
  exact ⟨m, hm, hs.samples (t + 1) k m hk hm⟩

end Recourse.Multistage
