import Recourse.Proofs.Multistage.Prospect
import Recourse.Proofs.Stage.Outcomes
import Recourse.Proofs.Stage.SetUp
import Recourse.Multistage.Jobs

/-! What a prepared problem keeps while it is trained: each reachable model before the end of the
horizon stays joined, with cuts that are valid for the exact cost-to-go. An operation on one model
frames all others. -/

namespace Recourse.Multistage

open Run (Triple Keeps)

variable {α β : Type} {p P : Multistage α}

/-! ### Operations on one model -/

def put (P : Multistage α) (t k : ℕ) (m : Stage α) : Multistage α :=
  { P with models := P.models.set t ((P.models.getD t []).set k m) }

theorem stageAt_eq_some {t k : ℕ} {m : Stage α} :
    P.stageAt t k = some m ↔ ∃ ms, P.models[t]? = some ms ∧ ms[k]? = some m :=
  Option.bind_eq_some_iff

theorem stageAt_put_self {t k : ℕ} {m₀ : Stage α} (h : P.stageAt t k = some m₀) (m : Stage α) :
    (P.put t k m).stageAt t k = some m := by
  obtain ⟨ms, hms, hm₀⟩ := stageAt_eq_some.mp h
  have ht := (List.getElem?_eq_some_iff.mp hms).1
  have hk := (List.getElem?_eq_some_iff.mp hm₀).1
  have hgetD : P.models.getD t [] = ms := by simp [hms]
  rw [put, hgetD]
  simp [stageAt, ht, hk]

theorem stageAt_put_of_ne {t k t' k' : ℕ} (h : t' = t → k' ≠ k) (m : Stage α) :
    (P.put t k m).stageAt t' k' = P.stageAt t' k' := by
  by_cases ht : t' = t
  · subst ht
    rcases hms : P.models[t']? with _ | ms
    · have hlen := List.getElem?_eq_none_iff.mp hms
      simp [stageAt, put, List.set_eq_of_length_le hlen]
    · have hlt := (List.getElem?_eq_some_iff.mp hms).1
      simp [stageAt, put, hlt, Ne.symm (h rfl)]
  · simp [stageAt, put, Ne.symm ht]

theorem stageAt_put_cases {t k t' k' : ℕ} {m₀ m M : Stage α} (h : P.stageAt t k = some m₀)
    (hM : (P.put t k m).stageAt t' k' = some M) :
    (t' = t ∧ k' = k ∧ M = m) ∨ P.stageAt t' k' = some M := by
  by_cases hsame : t' = t ∧ k' = k
  · obtain ⟨rfl, rfl⟩ := hsame
    exact .inl ⟨rfl, rfl, (Option.some.inj ((stageAt_put_self h m).symm.trans hM)).symm⟩
  · rw [stageAt_put_of_ne fun ht hk => hsame ⟨ht, hk⟩] at hM
    exact .inr hM

theorem onModel_on_some {t k : ℕ} {m : Stage α} (h : P.stageAt t k = some m)
    (act : Stage.Edit α β) :
    (onModel t k act).on P = ((act.on m).1, P.put t k (act.on m).2) := by
  obtain ⟨ms, hms, hm⟩ := stageAt_eq_some.mp h
  have hgetD : P.models.getD t [] = ms := by simp [hms]
  rw [put, hgetD]
  simp only [Run.on, onModel, Run.zoom, Run.entry, hms, hm]
  rfl

theorem onModel_on_none {t k : ℕ} (h : P.stageAt t k = none) (act : Stage.Edit α β) :
    (onModel t k act).on P = (.error .position, P) := by
  rcases hms : P.models[t]? with _ | ms
  · simp [Run.on, onModel, Run.zoom, Run.entry, hms]
  · have hm : ms[k]? = none := by simpa [stageAt, hms] using h
    obtain ⟨ht, rfl⟩ := List.getElem?_eq_some_iff.mp hms
    simp [Run.on, onModel, Run.zoom, Run.entry, ht, hm]

/-- An operation on a model leaves all others alone. -/
theorem onModel_triple {A E : Multistage α → Prop} {Q : β → Multistage α → Prop} {t k : ℕ}
    {act : Stage.Edit α β} (h : ∀ P m, A P → P.stageAt t k = some m →
      Triple (· = m) act (fun b m' => Q b (P.put t k m')) fun m' => E (P.put t k m'))
    (hnone : ∀ P, A P → P.stageAt t k = none → E P) : Triple A (onModel t k act) Q E := by
  intro P hP
  rcases hm : P.stageAt t k with _ | m
  · rw [onModel_on_none hm]
    refine ⟨fun b P' hrun => ?_, fun e P' hrun => ?_⟩ <;> cases hrun
    exact hnone P hP hm
  · rw [onModel_on_some hm]
    obtain ⟨hok, herror⟩ := h P m hP hm m rfl
    refine ⟨fun b P' hrun => ?_, fun e P' hrun => ?_⟩
    all_goals
      obtain ⟨hr, rfl⟩ := Prod.mk.inj hrun
    · exact hok b _ (Prod.ext hr rfl)
    · exact herror e _ (Prod.ext hr rfl)

/-! ### All reachable models -/

/-- Whether each reachable model, `p` being the problem as it was written, has become one with a
property. -/
def Each (p : Multistage α) (φ : ℕ → ℕ → Stage α → Stage α → Prop) (P : Multistage α) : Prop :=
  ∀ t k base, t < p.horizon → k ∈ p.reachableStates t → p.stageAt t k = some base →
    ∃ m, P.stageAt t k = some m ∧ φ t k base m

variable {φ ψ : ℕ → ℕ → Stage α → Stage α → Prop}

theorem Each.mono (h : p.Each φ P)
    (hφ : ∀ t k base m, t < p.horizon → k ∈ p.reachableStates t → p.stageAt t k = some base →
      φ t k base m →
      ψ t k base m) : p.Each ψ P := by
  intro t k base ht hk hbase
  obtain ⟨m, hm, hprop⟩ := h t k base ht hk hbase
  exact ⟨m, hm, hφ t k base m ht hk hbase hprop⟩

/-- One model is replaced; the property may change for this one. -/
theorem Each.put {t k : ℕ} {m₀ m : Stage α} (h : p.Each φ P) (hm₀ : P.stageAt t k = some m₀)
    (hm : ∀ base, t < p.horizon → k ∈ p.reachableStates t → p.stageAt t k = some base →
      ψ t k base m)
    (hφ : ∀ t' k' base m, (t' = t → k' ≠ k) → φ t' k' base m → ψ t' k' base m) :
    p.Each ψ (P.put t k m) := by
  intro t' k' base ht' hk' hbase
  by_cases hsame : t' = t ∧ k' = k
  · obtain ⟨rfl, rfl⟩ := hsame
    exact ⟨m, stageAt_put_self hm₀ m, hm base ht' hk' hbase⟩
  · have hne : t' = t → k' ≠ k := fun ht hk => hsame ⟨ht, hk⟩
    obtain ⟨m', hm', hprop⟩ := h t' k' base ht' hk' hbase
    exact ⟨m', (stageAt_put_of_ne hne m).trans hm', hφ t' k' base m' hne hprop⟩

/-! ### The invariant -/

variable [Field α] [LinearOrder α]

variable {F : Prospect α}

variable [Numeral α]

structure Checked (p : Multistage α) : Prop where
  wellFormed : p.WellFormed
  aligned : p.Aligned
  bound : 1 < p.horizon → ∃ limit, p.bound = .ok limit

def costToGoColumn? (p : Multistage α) (t : ℕ) : Option (Column α) :=
  if t + 1 < p.horizon then
    p.bound.toOption.map fun limit => Junction.costToGoColumn p.sense p.discount limit
  else none

/-- How the model of a Markov state is joined to the stages before and behind it, and what is known
of its cuts. -/
def junction (p : Multistage α) (F : Prospect α) (t k : ℕ) (base : Stage α) : Junction α :=
  .of base (t = 0) (p.isLagged (t + 1)) (p.costToGoColumn? t)
    fun c => p.ValidFor F t k c ∧ (p.isLagged (t + 1) = false → c.noiseSlopes = [])

theorem WellFormed.sound (h : p.WellFormed) {t k : ℕ} {base : Stage α}
    (hk : k ∈ p.reachableStates t) (hbase : p.stageAt t k = some base) :
    (p.junction F t k base).Sound :=
  Junction.of_sound (h.models t k base hk hbase).1

/-- The invariant of a problem in training, `p` being the problem as it was written: its cuts are
valid for a prospect, and the bound that training found last is one. -/
structure Trained (p : Multistage α) (F : Prospect α) (P : Multistage α) : Prop where
  frame : P = { p with models := P.models, prepared := true, lastBound := P.lastBound }
  models : p.Each (fun t k base => (p.junction F t k base).AtRest Junction.AnyLink) P
  bound : P.lastBound = p.lastBound ∨ ∃ b, P.lastBound = some b ∧ p.BoundFor F b

def cutsAt (P : Multistage α) (t k : ℕ) : List (Cut α) :=
  (((P.stageAt t k).bind Stage.costToGo).map fun ctg => ctg.pool.cuts).getD []

theorem Trained.cuts_valid (hp : p.WellFormed) (h : p.Trained F P) {t k : ℕ} (ht : t < p.horizon)
    (hk : k ∈ p.reachableStates t) {c : Cut α} (hc : c ∈ P.cutsAt t k) : p.ValidFor F t k c := by
  obtain ⟨base, hbase⟩ := hp.reachable t ht k hk
  obtain ⟨m, hm, hrest⟩ := h.models t k base ht hk hbase
  rcases hctg : m.costToGo with _ | ctg
  · simp [cutsAt, hm, hctg] at hc
  · have hmem : c ∈ ctg.pool.cuts := by simpa [cutsAt, hm, hctg] using hc
    exact ((hrest.cuts ctg hctg).2 c hmem).1

theorem Trained.put {t k : ℕ} {m₀ m : Stage α} (h : p.Trained F P) (hm₀ : P.stageAt t k = some m₀)
    (hm : ∀ base, t < p.horizon → k ∈ p.reachableStates t → p.stageAt t k = some base →
      (p.junction F t k base).AtRest Junction.AnyLink m) : p.Trained F (P.put t k m) where
  frame := by
    rw [h.frame]
    rfl
  models := h.models.put hm₀ hm fun _ _ _ _ _ hm => hm
  bound := h.bound

theorem Trained.onModel_triple (hp : p.WellFormed) {t k : ℕ} {act : Stage.Edit α β} {Q : β → Prop}
    (h : ∀ base, t < p.horizon → k ∈ p.reachableStates t → p.stageAt t k = some base →
      Triple ((p.junction F t k base).AtRest Junction.AnyLink) act
        (fun b m => (p.junction F t k base).AtRest Junction.AnyLink m ∧ Q b)
        ((p.junction F t k base).AtRest Junction.AnyLink)) :
    Triple (p.Trained F) (onModel t k act)
      (fun b P => p.Trained F P ∧ (t < p.horizon → k ∈ p.reachableStates t → Q b))
      (p.Trained F) := by
  refine Multistage.onModel_triple (fun P m hP hm => ?_) fun _ hP _ => hP
  by_cases hin : t < p.horizon ∧ k ∈ p.reachableStates t
  · obtain ⟨ht, hk⟩ := hin
    obtain ⟨base, hbase⟩ := hp.reachable t ht k hk
    obtain ⟨m', hm', hrest⟩ := hP.models t k base ht hk hbase
    obtain rfl := Option.some.inj (hm.symm.trans hm')
    have hput {m' : Stage α} (hm' : (p.junction F t k base).AtRest Junction.AnyLink m') :
        p.Trained F (P.put t k m') := by
      refine hP.put hm fun base' _ _ hbase' => ?_
      obtain rfl := Option.some.inj (hbase.symm.trans hbase')
      exact hm'
    exact (h base ht hk hbase).conseq (fun _ hs => hs ▸ hrest)
      (fun _ _ hb => ⟨hput hb.1, fun _ _ => hb.2⟩)
      fun _ hs => hput hs
  · have hput (m' : Stage α) : p.Trained F (P.put t k m') := hP.put hm fun _ ht hk =>
      absurd ⟨ht, hk⟩ hin
    exact fun _ _ =>
      ⟨fun _ m' _ => ⟨hput m', fun ht hk => absurd ⟨ht, hk⟩ hin⟩, fun _ m' _ => hput m'⟩

end Recourse.Multistage
