import Recourse.Proofs.Multistage.Bounded
import Recourse.Proofs.Multistage.Expectation
import Recourse.Proofs.Multistage.Prospect
import Recourse.Proofs.Risk.Validity

/-! Plans: a decision for each outcome that may happen, stage after stage, in a problem that is
judged by expectation. What plans cost is a prospect of its own, as it comes about like the exact
cost-to-go but without optimizing. So cuts stay below the costs of all plans, provided that the
bound is. -/

namespace Recourse.Multistage

open Finset

variable {α : Type} [Field α] [LinearOrder α] {p : Multistage α}

/-- Whether a value is the expected cost of some plan for the `r` stages that follow on the Markov
state `j` of stage `t`: of decisions for the outcomes that may happen next, with plans for the
stages behind them. -/
def PlanFrom (p : Multistage α) : (r t j : ℕ) → (state noise : List α) → α → Prop
  | 0, _, _, _, _, q => q = 0
  | r + 1, t, j, state, noise, q => ∃ cost : ℕ × ℕ → α,
      (∀ place ∈ p.places (t + 1), 0 < p.placeWeight (t + 1) j place →
        ∃ m, p.stageAt (t + 1) place.1 = some m ∧
        m.Costs p.discount (p.PlanFrom r (t + 1) place.1) (m.Receives state noise) place.2
          (cost place)) ∧
      q = ((p.places (t + 1)).map fun place => p.placeWeight (t + 1) j place * cost place).sum

/-- The costs of plans for going on to the end of the horizon. -/
def Plan (p : Multistage α) : Prospect α :=
  fun t j state noise q => p.PlanFrom (p.horizon - 1 - t) t j state noise q

/-- A problem that is judged by expectation on all stages. -/
def Neutral (p : Multistage α) : Prop := ∀ choice ∈ p.measures, choice.measure = .ok .expectation

/-- A problem whose bound is one of the costs of all plans. -/
def BoundsPlans [Numeral α] (p : Multistage α) : Prop :=
  ∀ b, p.outline.bound.asNumber = .ok b →
    ∀ t k state noise q, t + 1 < p.horizon → k ∈ p.reachableStates t →
    p.Plan t k state noise q → p.sense.orient b ≤ p.sense.orient q

theorem plan_last {t k : ℕ} {state noise : List α} {q : α} (ht : ¬ t + 1 < p.horizon) :
    p.Plan t k state noise q ↔ q = 0 := by
  have hr : p.horizon - 1 - t = 0 := by omega
  rw [Plan, hr, PlanFrom]

theorem plan_succ {t j : ℕ} {state noise : List α} {q : α} (ht : t + 1 < p.horizon) :
    p.Plan t j state noise q ↔ ∃ cost : ℕ × ℕ → α,
      (∀ place ∈ p.places (t + 1), 0 < p.placeWeight (t + 1) j place →
        ∃ m, p.stageAt (t + 1) place.1 = some m ∧
        m.Costs p.discount (p.Plan (t + 1) place.1) (m.Receives state noise) place.2 (cost place)) ∧
      q = ((p.places (t + 1)).map fun place => p.placeWeight (t + 1) j place * cost place).sum := by
  have hr : p.horizon - 1 - t = p.horizon - 1 - (t + 1) + 1 := by omega
  rw [Plan, hr, PlanFrom]
  rfl

theorem BoundsPlans.realistic [IsStrictOrderedRing α] [Numeral α] (hb : p.BoundsPlans)
    (hp : p.WellFormed) (hs : p.Stochastic) (hneutral : p.Neutral) : p.Realistic p.Plan where
  bounded := hb
  last := fun _ _ _ _ _ ht hq => (plan_last ht).mp hq
  next := fun t j state noise q choice measure ht hj hq hchoice hmeasure => by
    obtain ⟨cost, hcost, rfl⟩ := (plan_succ ht).mp hq
    obtain rfl := Except.ok.inj
      ((hneutral choice (List.mem_of_getElem? hchoice)).symm.trans hmeasure)
    have hdist := distribution_places hp hs ht hj
    set places := p.places (t + 1)
    have hne : places.map cost ≠ [] := by
      obtain ⟨x, hx, -⟩ := hdist.exists_pos
      obtain ⟨place, hplace, -⟩ := List.mem_map.mp hx
      exact List.ne_nil_of_mem (List.mem_map_of_mem hplace)
    have hlength : (places.map (p.placeWeight (t + 1) j)).length = (places.map cost).length := by
      simp
    have hrows : ((places.map cost).map fun _ => ([] : List α)).length =
        (places.map cost).length := by simp
    have hwidth : ∀ row ∈ (places.map cost).map fun _ => ([] : List α), row.length = 0 := by simp
    have hdot : Scalar.dot (places.map (p.placeWeight (t + 1) j)) (places.map cost) =
        (places.map fun place => p.placeWeight (t + 1) j place * cost place).sum := by
      rw [Scalar.dot, Scalar.total_eq_sum, List.zipWith_map, List.zipWith_self]
    refine ⟨places.map cost, _, ?_, RiskMeasure.weigh_eq hlength hrows hne hwidth, hdot.symm⟩
    refine List.forall₂_map_right_iff.mpr (List.forall₂_same.mpr fun place hplace hpos => ?_)
    obtain ⟨m, hm, hcosts⟩ := hcost place hplace hpos
    exact ⟨m, hm, ⟨_, hcosts⟩, fun b hb => hb _ hcosts⟩

/-- If no decision earns anything by itself, no plan does. -/
theorem Costly.planFrom_nonneg [IsStrictOrderedRing α] (h : p.Costly) (hp : p.WellFormed)
    (hs : p.Stochastic)
    {r t j : ℕ} (hr : t + r < p.horizon) (hj : j ∈ p.reachableStates t)
    {state noise : List α} {q : α} (hq : p.PlanFrom r t j state noise q) :
    0 ≤ p.sense.orient q := by
  induction r generalizing t j state noise q with
  | zero =>
    obtain rfl : q = 0 := hq
    simp
  | succ r ih =>
    obtain ⟨cost, hcost, rfl⟩ := hq
    have hdist := distribution_places hp hs (by omega) hj
    rw [Sense.orient_list_sum, List.map_map]
    refine List.sum_nonneg (List.forall_mem_map.mpr fun place hplace => ?_)
    rw [Function.comp_apply, Sense.orient_mul]
    rcases (hdist.nonneg _ (List.mem_map_of_mem hplace)).eq_or_lt with hzero | hpos
    · rw [← hzero, zero_mul]
    · obtain ⟨m, hm, y, q, hy, -, hq, hv⟩ := hcost place hplace hpos
      have hk := fst_mem_of_mem_places hplace
      refine mul_nonneg hpos.le ?_
      rw [hv, Sense.orient_add, Sense.orient_mul]
      exact add_nonneg (h.objective _ _ m _ y hk hm hy)
        (mul_nonneg h.discount (ih (by omega) hk hq))

theorem Costly.boundsPlans [IsStrictOrderedRing α] [Numeral α] (h : p.Costly) (hp : p.WellFormed)
    (hs : p.Stochastic) (hb : ∀ b, p.outline.bound.asNumber = .ok b → p.sense.orient b ≤ 0) :
    p.BoundsPlans :=
  fun b hbound _ _ _ _ _ ht hk hq => (hb b hbound).trans (h.planFrom_nonneg hp hs (by omega) hk hq)

/-! ### Means over outcomes -/

theorem sum_placesOf {t j k : ℕ} {m : Stage α} (hm : p.stageAt t k = some m)
    (hlength : m.probabilities.length = m.sampleCount) (f : ℕ → ℕ → α) :
    ((p.placesOf t k).map fun place => p.placeWeight t j place * f place.1 place.2).sum =
      p.transitionAt t j k * p.sampleMean t k (f k) := by
  have hprobabilities : p.probabilitiesAt t k = m.probabilities := by
    rw [probabilitiesAt, hm]
    rfl
  have hweight (s : ℕ) : p.placeWeight t j (k, s) * f k s =
      p.transitionAt t j k * (m.probabilities.getD s 0 * f k s) := by
    rw [placeWeight, hm]
    simp [mul_assoc]
  rw [placesOf, hm, Option.map_some, Option.getD_some, List.map_map, sampleMean, hprobabilities,
    hlength, mul_sum,
    ← List.toFinset_range, List.sum_toFinset _ List.nodup_range]
  congr 1
  exact List.map_congr_left fun s _ => hweight s

/-- A mean over steps is one over the outcomes of the next stage. -/
theorem stepMean_eq_places (hp : p.WellFormed) (hs : p.Stochastic) {t j : ℕ}
    (ht : t + 1 < p.horizon) (hj : j ∈ p.reachableStates t) (f : ℕ → ℕ → α) :
    p.stepMean (t + 1) j f =
      ((p.places (t + 1)).map fun place => p.placeWeight
        (t + 1) j place * f place.1 place.2).sum := by
  have hstate (k : ℕ) (hk : k ∈ p.reachableStates (t + 1)) :
      ((p.placesOf (t + 1) k).map
      fun place => p.placeWeight (t + 1) j place * f place.1 place.2).sum =
        p.transitionAt (t + 1) j k * p.sampleMean (t + 1) k (f k) := by
    obtain ⟨m, hm⟩ := hp.reachable (t + 1) ht k hk
    exact sum_placesOf hm (hs.samples (t + 1) k m hk hm).2 f
  rw [stepMean, ← sum_transitions hp hs ht hj, places, List.map_flatMap, List.flatMap_def,
    List.sum_flatten, List.map_map]
  congr 1
  exact List.map_congr_left fun k hk => (hstate k hk).symm

end Recourse.Multistage
