import Recourse.Proofs.Multistage.WellFormed
import Recourse.Proofs.Risk.Validity

/-! Where bounds of a cost-to-go come from. If no decision of a stage can earn anything, nothing is
earned later on either, whatever the measures of risk are. -/

namespace Recourse

variable {α : Type} [Field α] [LinearOrder α] [IsStrictOrderedRing α]

/-- Where no variable can be negative and none earns anything, nothing is earned. -/
theorem Program.objective_nonneg {P : Program α} {x : List α}
    (hconstant : 0 ≤ P.sense.orient P.constant)
    (hcolumns : ∀ c ∈ P.columns, 0 ≤ P.sense.orient c.cost ∧ ∀ v, c.Allows v → 0 ≤ v)
    (hx : P.Within x) :
    0 ≤ P.sense.orient (P.objective x) := by
  rw [objective, Sense.orient_add]
  refine add_nonneg hconstant ?_
  unfold Within at hx
  generalize P.columns = columns at hx hcolumns ⊢
  induction hx with
  | nil => simp
  | cons hv _ ih =>
    obtain ⟨hcost, hnonneg⟩ := hcolumns _ List.mem_cons_self
    rw [List.map_cons, Scalar.dot_cons, Sense.orient_add, mul_comm, Sense.orient_mul]
    exact add_nonneg (mul_nonneg (hnonneg _ hv) hcost)
      (ih fun c hc => hcolumns c (List.mem_cons_of_mem _ hc))

namespace Multistage

variable {p : Multistage α}

/-- A problem none of whose decisions earns anything by itself. -/
structure Costly (p : Multistage α) : Prop where
  discount : 0 ≤ p.discount
  objective : ∀ t k m s y, k ∈ p.reachableStates t → p.stageAt t k = some m → m.Allows s y →
    0 ≤ p.sense.orient (m.program.objective y)

theorem Costly.costToGo_nonneg (h : p.Costly) (hp : p.WellFormed) (hs : p.Stochastic) {r t j : ℕ}
    (hr : t + r < p.horizon) (hj : j ∈ p.reachableStates t) {state noise : List α} {q : α}
    (hq : p.IsCostToGo r t j state noise q) : 0 ≤ p.sense.orient q := by
  induction r generalizing t j state noise q with
  | zero =>
    obtain rfl : q = 0 := hq
    simp
  | succ r ih =>
    obtain ⟨values, choice, measure, a, hvalues, -, -, ha, rfl⟩ := hq
    have hvalue : ∀ i, 0 ≤ p.sense.orient (values.getD i 0) := by
      intro i
      by_cases hi : i < values.length
      · have hi' : i < (p.places (t + 1)).length := hvalues.length_eq ▸ hi
        obtain ⟨m, hm, hv⟩ := hvalues.get hi' hi
        have hk := fst_mem_of_mem_places (List.getElem_mem hi')
        have hle := hv.le (w := 0) ?_
        · simpa [List.getD_eq_getElem?_getD, hi] using hle
        · rintro u ⟨y, q, hy, -, hq, rfl⟩
          rw [Sense.orient_zero, Sense.orient_add, Sense.orient_mul]
          exact add_nonneg (h.objective _ _ m _ y hk hm hy)
            (mul_nonneg h.discount (ih (by omega) hk hq))
      · rw [List.getD_eq_getElem?_getD, List.getElem?_eq_none (by omega)]
        simp
    have hdist := distribution_places hp hs (by omega) hj
    have hcount : (values.map fun _ => ([] : List α)).length = values.length := by simp
    have hempty : ∀ row ∈ values.map fun _ => ([] : List α), row.length = 0 := by simp
    obtain ⟨w, g, hw⟩ := RiskMeasure.apply_spec p.sense
      (RiskMeasure.admissible_of_apply ha) hdist
      (by simp [hvalues.length_eq]) hcount hempty
    obtain rfl := Except.ok.inj (ha.symm.trans hw.run)
    rw [RiskMeasure.orient_dot_eq]
    exact Finset.sum_nonneg fun i _ =>
      mul_nonneg (hw.admits.nonneg (RiskMeasure.admissible_of_apply ha) hdist i) (hvalue i)

theorem Costly.bounded [Numeral α] (h : p.Costly) (hp : p.WellFormed) (hs : p.Stochastic)
    (hb : ∀ b, p.outline.bound.asNumber = .ok b → p.sense.orient b ≤ 0) : p.Bounded := by
  intro b hbound t k state noise q ht hk hq
  exact (hb b hbound).trans (h.costToGo_nonneg hp hs (by omega) hk hq)

end Multistage

end Recourse
