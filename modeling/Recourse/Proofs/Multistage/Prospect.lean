import Recourse.Proofs.Multistage.WellFormed

/-! What is known beforehand about the costs of going on. A prospect relates what goes out of a
Markov state of a stage to such costs; the exact cost-to-go is one. All that makes a cut valid for a
prospect is that its costs come about stage by stage, from decisions that the models allow. -/

namespace Recourse

variable {α : Type} [Field α] [LinearOrder α]

/-- What a decision of a model may cost in a scenario, with what follows on it. -/
def Stage.Costs (m : Stage α) (discount : α) (next : List α → List α → α → Prop)
    (entry : List α → Prop) (k : ℕ) (w : α) : Prop :=
  ∃ y q, m.Allows k y ∧ entry y ∧ next (m.outState y) (m.outNoise y) q ∧
      w = m.program.objective y + discount * q

namespace Multistage

variable {p : Multistage α}

abbrev Prospect (α : Type) := (t k : ℕ) → (state noise : List α) → (q : α) → Prop

/-- Whether a value is one of an outcome of stage `t` at an incoming state and noise: there are
decisions, and what is no worse than all of them is no worse than the value. -/
def OutcomeFor (p : Multistage α) (F : Prospect α) (t : ℕ) (state noise : List α) (place : ℕ × ℕ)
    (v : α) : Prop :=
  ∃ m, p.stageAt t place.1 = some m ∧
    (∃ w, m.Costs p.discount (F t place.1) (m.Receives state noise) place.2 w) ∧
    ∀ b, (∀ w, m.Costs p.discount (F t place.1) (m.Receives state noise) place.2 w →
      p.sense.orient b ≤ p.sense.orient w) → p.sense.orient b ≤ p.sense.orient v

/-- A prospect that is true to a problem. No cost is beyond the bound, none follows on the last
stage, and before that a cost is the aggregate of values of the outcomes that may happen next. -/
structure Realistic [Numeral α] (p : Multistage α) (F : Prospect α) : Prop where
  bounded : ∀ b, p.outline.bound.asNumber = .ok b →
    ∀ t k state noise q, t + 1 < p.horizon → k ∈ p.reachableStates t →
    F t k state noise q → p.sense.orient b ≤ p.sense.orient q
  last : ∀ t k state noise q, ¬ t + 1 < p.horizon → F t k state noise q → q = 0
  next : ∀ t j state noise q choice measure,
    t + 1 < p.horizon → j ∈ p.reachableStates t → F t j state noise q →
    p.measures[t + 1]? = some choice → choice.measure = .ok measure → ∃ values a,
      List.Forall₂ (fun place v => 0 < p.placeWeight (t + 1) j place →
        p.OutcomeFor F (t + 1) state noise place v)
        (p.places (t + 1)) values ∧
      RiskMeasure.apply measure p.sense values (values.map fun _ => [])
        (some ((p.places (t + 1)).map (p.placeWeight (t + 1) j))) = .ok a ∧
      q = a.value

def BoundFor [Numeral α] (p : Multistage α) (F : Prospect α) (b : α) : Prop :=
  ∀ m, p.stageAt 0 0 = some m → ∀ w, m.Costs p.discount (F 0 0) m.Starts 0 w →
    p.sense.orient b ≤ p.sense.orient w

/-- Whether a cut of the Markov state `k` of stage `t` is nowhere worse than the costs of a
prospect. -/
def ValidFor (p : Multistage α) (F : Prospect α) (t k : ℕ) (c : Cut α) : Prop :=
  ∀ state noise q, F t k state noise q → p.sense.orient (c.value state noise) ≤ p.sense.orient q

/-! ### The exact cost-to-go -/

/-- Whether a cut of the Markov state `k` of stage `t` is valid: nowhere is it worse than the exact
cost-to-go. -/
def Valid (p : Multistage α) (t k : ℕ) (c : Cut α) : Prop :=
  ∀ state noise q, p.CostToGoAt t k state noise q →
    p.sense.orient (c.value state noise) ≤ p.sense.orient q

/-- At the end of the horizon the cost-to-go is nothing. -/
theorem costToGoAt_last {t k : ℕ} {state noise : List α} {q : α} (ht : ¬ t + 1 < p.horizon) :
    p.CostToGoAt t k state noise q ↔ q = 0 := by
  have hr : p.horizon - 1 - t = 0 := by omega
  rw [CostToGoAt, hr, IsCostToGo]

/-- Whether a value is the exact one of an outcome of stage `t` at an incoming state and noise. -/
def IsOutcome (p : Multistage α) (t : ℕ) (state noise : List α) (place : ℕ × ℕ) (v : α) : Prop :=
  ∃ m, p.stageAt t place.1 = some m ∧
    m.IsValue p.sense p.discount (p.CostToGoAt t place.1) (m.Receives state noise) place.2 v

/-- Before the end of the horizon, the cost-to-go is the aggregate of what the next stage is
worth. -/
theorem costToGoAt_succ {t j : ℕ} {state noise : List α} {q : α} (ht : t + 1 < p.horizon) :
    p.CostToGoAt t j state noise q ↔ ∃ values choice measure a,
      List.Forall₂ (p.IsOutcome (t + 1) state noise) (p.places (t + 1)) values ∧
      p.measures[t + 1]? = some choice ∧ choice.measure = .ok measure ∧
      RiskMeasure.apply measure p.sense values (values.map fun _ => [])
        (some ((p.places (t + 1)).map (p.placeWeight (t + 1) j))) = .ok a ∧
      q = a.value := by
  have hr : p.horizon - 1 - t = p.horizon - 1 - (t + 1) + 1 := by omega
  rw [CostToGoAt, hr, IsCostToGo]
  rfl

theorem IsOutcome.outcomeFor [IsStrictOrderedRing α] {t : ℕ} {state noise : List α}
    {place : ℕ × ℕ} {v : α} (h : p.IsOutcome t state noise place v) :
    p.OutcomeFor p.CostToGoAt t state noise place v := by
  obtain ⟨m, hm, hv⟩ := h
  exact ⟨m, hm, hv.nonempty, fun b hb => hv.le fun w hw => hb w hw⟩

/-- A bound of the cost-to-go makes it a realistic prospect. -/
theorem Bounded.realistic [IsStrictOrderedRing α] [Numeral α] (hb : p.Bounded) :
    p.Realistic p.CostToGoAt where
  bounded := hb
  last := fun _ _ _ _ _ ht hq => (costToGoAt_last ht).mp hq
  next := fun t j state noise q choice measure ht _ hq hchoice hmeasure => by
    obtain ⟨values, choice', measure', a, hvalues, hchoice', hmeasure', ha, hqa⟩ :=
      (costToGoAt_succ ht).mp hq
    obtain rfl := Option.some.inj (hchoice.symm.trans hchoice')
    obtain rfl := Except.ok.inj (hmeasure.symm.trans hmeasure')
    exact ⟨values, a, hvalues.imp fun place v hv _ => hv.outcomeFor, ha, hqa⟩

/-- What is no worse than any decision is no worse than the best one. -/
theorem BoundFor.isBound [Numeral α] {b : α} (h : p.BoundFor p.CostToGoAt b) : p.IsBound b := by
  rintro v ⟨m, hm, hv⟩
  exact hv.le fun w hw => h m hm w hw

end Multistage

end Recourse
