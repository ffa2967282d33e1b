import Mathlib.Order.Bounds.Basic
import Recourse.Proofs.Linear.Duality
import Recourse.Multistage

/-! The exact cost-to-go of a multistage problem, by recursion from the last stage backwards and
without cuts. A stage is solved with the models as they were written: the value of an outcome is the
best cost of the stage plus the discounted cost-to-go of what goes out. The outcomes that follow a
Markov state are judged by the measure of their stage, each with the probability of its transition
and its sample.

The cost-to-go is a relation: it holds of a value only where the problems of all later stages have
one. -/

namespace Recourse

variable {α : Type}

namespace RandomRhs

def rows : RandomRhs α → List ℕ
  | .single row _ => [row]
  | .block rows _ => rows

def assignments [Zero α] (k : ℕ) : RandomRhs α → List (ℕ × α)
  | .single row samples => [(row, samples.getD k 0)]
  | .block rows samples => rows.zip (samples.getD k [])

end RandomRhs

/-- The right-hand side of a row after assignments: the last one that is meant for it, if any is. -/
def rhsAfter (as : List (ℕ × α)) (id : ℕ) (v : α) : α :=
  as.foldl (fun v a => if a.1 = id then a.2 else v) v

def Row.assign (as : List (ℕ × α)) (r : Row α) : Row α := { r with rhs := rhsAfter as r.id r.rhs }

variable [Field α] [LinearOrder α]

/-- The best of several values: the greatest lower bound of their costs. -/
def Sense.IsBest (sense : Sense) (values : Set α) (v : α) : Prop :=
  IsGLB (sense.orient '' values) (sense.orient v)

theorem Sense.IsBest.unique {sense : Sense} {values : Set α} {v w : α} (hv : sense.IsBest values v)
    (hw : sense.IsBest values w) : v = w := by
  have h : sense.orient v = sense.orient w := IsGLB.unique hv hw
  calc v = sense.orient (sense.orient v) := (Sense.orient_orient v).symm
    _ = sense.orient (sense.orient w) := by rw [h]
    _ = w := Sense.orient_orient w

theorem Sense.IsBest.le {sense : Sense} {values : Set α} {v w : α} (hv : sense.IsBest values v)
    (h : ∀ u ∈ values, sense.orient w ≤ sense.orient u) : sense.orient w ≤ sense.orient v :=
  hv.2 (by rintro _ ⟨u, hu, rfl⟩; exact h u hu)

/-- There is no best of no values at all, as no number exceeds all others. -/
theorem Sense.IsBest.nonempty [IsStrictOrderedRing α] {sense : Sense} {values : Set α} {v : α}
    (hv : sense.IsBest values v) : values.Nonempty := by
  by_contra hempty
  rw [Set.not_nonempty_iff_eq_empty] at hempty
  subst hempty
  have hle : sense.orient v + 1 ≤ sense.orient v := hv.2 (by simp [lowerBounds])
  linarith

namespace Stage

def assignments (m : Stage α) (k : ℕ) : List (ℕ × α) := m.random.flatMap (RandomRhs.assignments k)

/-- Whether a point is within the limits of a model and satisfies its rows in a scenario. -/
structure Allows (m : Stage α) (k : ℕ) (y : List α) : Prop where
  within : m.program.Within y
  holds : ∀ r ∈ m.rows, (r.assign (m.assignments k)).Holds y

/-- Whether a point takes over what comes in: the local copies are the incoming state and, where
there is lagged noise, the incoming noise. -/
structure Receives (m : Stage α) (state noise y : List α) : Prop where
  state : List.Forall₂ (fun column v => y.getD column 0 = v) m.copies state
  noise : m.noiseCopies ≠ [] → List.Forall₂
    (fun column v => y.getD column 0 = v) m.noiseCopies noise

/-- Whether a point of the first stage starts from the initial values, where there are any. -/
def Starts [Numeral α] (m : Stage α) (y : List α) : Prop :=
  ∀ cd ∈ m.copies.zip m.initial, cd.2.isNull = false →
    ∀ v, cd.2.asNumber = .ok v → y.getD cd.1 0 = v

def outState (m : Stage α) (y : List α) : List α := m.states.map fun i => y.getD i 0

def outNoise (m : Stage α) (y : List α) : List α := m.noise.map fun i => y.getD i 0

/-- Whether a value is the best one of a model in a scenario. What comes in is taken over by
`entry`, and `next` tells the cost-to-go of what goes out. -/
def IsValue (m : Stage α) (sense : Sense) (discount : α) (next : List α → List α → α → Prop)
    (entry : List α → Prop) (k : ℕ) (v : α) : Prop :=
  sense.IsBest {w | ∃ y q, m.Allows k y ∧ entry y ∧ next (m.outState y) (m.outNoise y) q ∧
    w = m.program.objective y + discount * q} v

end Stage

namespace Multistage

def stageAt (p : Multistage α) (t k : ℕ) : Option (Stage α) := p.models[t]?.bind fun ms => ms[k]?

/-- The probability of moving from the Markov state `j` to the Markov state `k` of stage `t`. -/
def transitionAt (p : Multistage α) (t j k : ℕ) : α :=
  ((p.chain.matrices.getD t []).getD j []).getD k 0

def placesOf (p : Multistage α) (t k : ℕ) : List (ℕ × ℕ) :=
  (List.range (((p.stageAt t k).map Stage.sampleCount).getD 0)).map fun s => (k, s)

def places (p : Multistage α) (t : ℕ) : List (ℕ × ℕ) := (p.reachableStates t).flatMap (p.placesOf t)

/-- The probability of an outcome of stage `t` after the Markov state `j`. -/
def placeWeight (p : Multistage α) (t j : ℕ) (place : ℕ × ℕ) : α :=
  p.transitionAt t j place.1 * (((p.stageAt t place.1).map Stage.probabilities).getD
    []).getD place.2 0

/-- Whether a value is the cost-to-go of the Markov state `j` of stage `t`, where `r` stages remain,
at an outgoing state and noise. -/
def IsCostToGo (p : Multistage α) : (r t j : ℕ) → (state noise : List α) → α → Prop
  | 0, _, _, _, _, q => q = 0
  | r + 1, t, j, state, noise, q =>
    ∃ values choice measure a,
      List.Forall₂ (fun place v => ∃ m, p.stageAt (t + 1) place.1 = some m ∧
        m.IsValue p.sense p.discount (p.IsCostToGo r (t + 1) place.1)
          (m.Receives state noise) place.2 v)
        (p.places (t + 1)) values ∧
      p.measures[t + 1]? = some choice ∧ choice.measure = .ok measure ∧
      RiskMeasure.apply measure p.sense values (values.map fun _ => [])
        (some ((p.places (t + 1)).map (p.placeWeight (t + 1) j))) = .ok a ∧
      q = a.value

/-- A cost-to-go is a function of what goes out. -/
theorem IsCostToGo.unique {p : Multistage α} {r t j : ℕ} {state noise : List α} {q q' : α}
    (h : p.IsCostToGo r t j state noise q) (h' : p.IsCostToGo r t j state noise q') : q = q' := by
  cases r with
  | zero => exact Eq.trans h (Eq.symm h')
  | succ r =>
    obtain ⟨values, choice, measure, a, hvalues, hchoice, hmeasure, ha, rfl⟩ := h
    obtain ⟨values', choice', measure', a', hvalues', hchoice', hmeasure', ha', rfl⟩ := h'
    have hsame : values = values' := by
      refine Relator.RightUnique.forall₂ (fun place v w hv hw => ?_) hvalues hvalues'
      obtain ⟨m, hm, hv⟩ := hv
      obtain ⟨m', hm', hw⟩ := hw
      obtain rfl := Option.some.inj (hm.symm.trans hm')
      exact hv.unique hw
    subst hsame
    rw [hchoice] at hchoice'
    obtain rfl := Option.some.inj hchoice'
    rw [hmeasure] at hmeasure'
    obtain rfl := Except.ok.inj hmeasure'
    rw [ha] at ha'
    obtain rfl := Except.ok.inj ha'
    rfl

def CostToGoAt (p : Multistage α) (t j : ℕ) (state noise : List α) (q : α) : Prop :=
  p.IsCostToGo (p.horizon - 1 - t) t j state noise q

/-- Whether a value is the optimal value of the problem. -/
def IsOptimalValue [Numeral α] (p : Multistage α) (v : α) : Prop :=
  ∃ m, p.stageAt 0 0 = some m ∧ m.IsValue p.sense p.discount (p.CostToGoAt 0 0) m.Starts 0 v

/-- Whether a value is no worse than the optimal value, if there is one. -/
def IsBound [Numeral α] (p : Multistage α) (b : α) : Prop :=
  ∀ v, p.IsOptimalValue v → p.sense.orient b ≤ p.sense.orient v

end Multistage

end Recourse
