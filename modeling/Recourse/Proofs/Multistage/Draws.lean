import Recourse.Proofs.Multistage.Paths
import Recourse.Proofs.Multistage.Writing
import Recourse.Proofs.Stage.Scenarios
import Recourse.Problems

/-! Whether what was accepted can be drawn. Rows of a chain and probabilities of scenarios are
accepted if their sums are one to four decimal places; a draw takes them only if their sums are one
but for rounding. So a draw after a reachable state fails for one reason only, and a forward pass
never fails exactly if all sums are that close to one. -/

namespace Recourse

open Source (Lawful)

variable {α γ : Type} [Field α] [LinearOrder α]

/-- A sum that a draw takes for one. -/
def Source.Exact (p : List α) : Prop := |p.sum - 1| ≤ Source.sumTolerance

/-- A model that has scenarios. Its probabilities, if it has any, were accepted for as many
scenarios as it has. -/
structure Stage.Weighted [Numeral α] (m : Stage α) : Prop where
  count : 0 < m.sampleCount
  accepted : ∀ q, m.probability = some q →
    ∃ (d : Datum α) (m₀ : Stage α), m₀.sampleCount = m.sampleCount ∧
    ((Stage.setProbability d).on m₀).1 = .ok () ∧
      ((Stage.setProbability d).on m₀).2.probability = some q

/-- A problem all of whose distributions, where they are drawn from, have sums that a draw takes for
one. -/
structure Multistage.Drawable (p : Multistage α) : Prop where
  moves : ∀ t j, t + 1 < p.horizon → j ∈ p.reachableStates t → Source.Exact (p.moves (t + 1) j)
  samples : ∀ t k m q, t + 1 < p.horizon → k ∈ p.reachableStates (t + 1) →
    p.stageAt (t + 1) k = some m →
    m.probability = some q → Source.Exact q

/-! ### Single draws -/

namespace Source

variable [IsStrictOrderedRing α] {p : List α}

theorem Exact.sum_pos (h : Exact p) : 0 < p.sum := by
  have htolerance : (sumTolerance : α) < 1 := by
    rw [sumTolerance, Scalar.ratio_eq]
    norm_num
  have hlower := neg_le_of_abs_le h
  linarith

variable [Source γ α]

theorem choose_on_of_nonneg (hne : p.length ≠ 0) (hp : ∀ x ∈ p, 0 ≤ x) (g : γ) :
    (Exact p → (choose p.length p).on g = (.ok (position p (uniform g).1), (uniform g).2)) ∧
      (¬ Exact p → (choose p.length p).on g = (.error (.value .distribution), g)) := by
  refine ⟨fun h => choose_on hne ((isDistribution_iff_of_nonneg hp).mpr ⟨rfl, h⟩), fun h => ?_⟩
  have hno : ¬ isDistribution p.length p = true := fun hd =>
    h ((isDistribution_iff_of_nonneg hp).mp hd).2
  simp only [Run.on, choose, if_neg hne, if_neg hno]

theorem position_lt (hp : ∀ x ∈ p, 0 ≤ x) (h : Exact p) {x : α} (hx : 0 ≤ x) (hx' : x < 1) :
    position p x < p.length := by
  have hpos := position_pos hp h.sum_pos hx hx'
  by_contra hlast
  simp [List.getElem?_eq_none (not_lt.mp hlast)] at hpos

end Source

namespace Stage

variable [Numeral α] {m : Stage α}

theorem Weighted.fits (h : m.Weighted) {q : List α} (hq : m.probability = some q) :
    q.length = m.sampleCount ∧ ∀ x ∈ q, 0 ≤ x := by
  obtain ⟨d, m₀, hcount, hok, hset⟩ := h.accepted q hq
  have htriple := setProbability_triple (I := (· = m₀)) (Q := fun s => ∃ q, s.probability = some q ∧
    q.length = m₀.sampleCount ∧ ∀ x ∈ q, 0 ≤ x) d fun s q hs hlength hsign _ =>
      ⟨q, rfl, hs ▸ hlength, fun x hx => not_lt.mp (hsign x hx)⟩
  obtain ⟨q', hq', hlength, hsign⟩ := (htriple m₀ rfl).1 () _ (Prod.ext hok rfl)
  obtain rfl := Option.some.inj (hset.symm.trans hq')
  exact ⟨hlength.trans hcount, hsign⟩

end Stage

namespace Multistage

variable [Numeral α] [IsStrictOrderedRing α] {p : Multistage α} {m : Stage α}

section

variable [Source γ α]

/-- A sample can be drawn if the sum of the probabilities is taken for one. -/
theorem drawSample_ok (hg : Lawful γ) (hm : m.Weighted)
    (h : ∀ q, m.probability = some q → Source.Exact q) (g : γ) :
    ∃ s < m.sampleCount, ∃ g', (drawSample m).on g = (.ok s, g') := by
  rcases hprobability : m.probability with _ | q
  · rw [drawSample_none hprobability]
    rcases Nat.eq_or_lt_of_le (Nat.succ_le_of_lt hm.count) with hone | hmany
    · exact ⟨0, hm.count, g, by rw [← hone]; rfl⟩
    · exact ⟨_, hg.below _ g hm.count, _, Source.draw_on hmany⟩
  · obtain ⟨hlength, hsign⟩ := hm.fits hprobability
    obtain ⟨hx, hx'⟩ := hg.uniform g
    have hexact := h q hprobability
    rw [drawSample_some hprobability, ← hlength]
    exact ⟨_, Source.position_lt hsign hexact hx hx', _,
      (Source.choose_on_of_nonneg (hlength ▸ hm.count.ne') hsign g).1 hexact⟩

/-- Otherwise the draw fails, and nothing is taken from the source. -/
theorem drawSample_error (hm : m.Weighted) {q : List α} (hq : m.probability = some q)
    (h : ¬ Source.Exact q) (g : γ) :
    (drawSample m).on g = (.error (.value .distribution), g) := by
  obtain ⟨hlength, hsign⟩ := hm.fits hq
  rw [drawSample_some hq, ← hlength]
  exact (Source.choose_on_of_nonneg (hlength ▸ hm.count.ne') hsign g).2 h

variable (hp : p.Charted) {t j : ℕ}
include hp

theorem Charted.length_moves_ne (ht : t + 1 < p.horizon) (hj : j ∈ p.reachableStates t) :
    (p.moves (t + 1) j).length ≠ 0 := by
  intro hnil
  have hsum := (hp.transition_eq ht hj).2.2.2
  rw [List.length_eq_zero_iff.mp hnil, List.sum_nil] at hsum
  exact lt_irrefl 0 hsum

/-- A Markov state can be drawn after a reachable one if the sum of its row is taken for one, and
then it is reachable itself. -/
theorem Charted.drawState_ok (hg : Lawful γ) (ht : t + 1 < p.horizon) (hj : j ∈ p.reachableStates t)
    (h : Source.Exact (p.moves (t + 1) j)) (g : γ) :
    ∃ k ∈ p.reachableStates (t + 1), ∃ g', (p.drawState (t + 1 : ℕ) j).on g = (.ok k, g') := by
  have hstate := hp.drawState_on ht hj (g := g)
  rw [(Source.choose_on_of_nonneg (hp.length_moves_ne ht hj) (hp.transition_eq ht hj).2.2.1 g).1 h]
    at hstate
  exact ⟨_, (hp.mem_reachableStates_succ ht).mpr
    ⟨j, hj, hp.pos_of_drawState hg ht hj hstate⟩, _, hstate⟩

theorem Charted.drawState_error (ht : t + 1 < p.horizon) (hj : j ∈ p.reachableStates t)
    (h : ¬ Source.Exact (p.moves (t + 1) j)) (g : γ) :
    (p.drawState (t + 1 : ℕ) j).on g = (.error (.value .distribution), g) := by
  rw [hp.drawState_on ht hj]
  exact (Source.choose_on_of_nonneg (hp.length_moves_ne ht hj) (hp.transition_eq ht hj).2.2.1 g).2 h

end

/-! ### Whole passes -/

/-- The models of the reachable states have accepted probabilities. -/
def Weighted (p : Multistage α) : Prop :=
  ∀ t k m, k ∈ p.reachableStates t → p.stageAt t k = some m → m.Weighted

section

variable (hp : p.Charted) (hw : p.Weighted)
include hp hw

theorem Charted.drawFrom_ok [Source γ α] (hg : Lawful γ) (h : p.Drawable) {n t j : ℕ}
    (ht : t + 1 + n = p.horizon)
    (hj : j ∈ p.reachableStates t) (g : γ) :
    ∃ path g', (p.drawFrom n (t + 1) j).on g = (.ok path, g') := by
  induction n generalizing t j g with
  | zero => exact ⟨[], g, rfl⟩
  | succ n ih =>
    have ht' : t + 1 < p.horizon := by omega
    obtain ⟨k, hk, g₁, hstate⟩ := hp.drawState_ok hg ht' hj (h.moves t j ht' hj) g
    obtain ⟨m, hm, hmodel⟩ := hp.exists_model (hp.lt_counts hk).2
    obtain ⟨s, -, g₂, hsample⟩ :=
      drawSample_ok hg (hw (t + 1) k m hk hm) (fun q hq => h.samples t k m q ht' hk hm hq) g₁
    obtain ⟨rest, g₃, hrest⟩ := ih (by omega) hk g₂
    refine ⟨(↑k, ↑s) :: rest, g₃, ?_⟩
    rw [drawFrom, Run.bind_ok _ (drawStage_on hstate hmodel hsample), Run.bind_ok _ hrest]
    rfl

end

/-- A state of which it is known how the draws get there: what goes wrong behind it goes wrong in a
whole pass. -/
def Arrives (p : Multistage α) (t j : ℕ) : Prop :=
  ∃ tape : Tape α, ∀ (rest rest' : Tape α) (e : Fault α),
    (p.drawFrom (p.horizon - (t + 1)) (t + 1) j).on rest = (.error e, rest') →
      p.drawPath.on (tape ++ rest) = (.error e, rest')

theorem exists_tape_of_exact (hm : m.Weighted) (h : ∀ q, m.probability = some q → Source.Exact q) :
    ∃ (tape : Tape α) (s : ℕ),
    ∀ rest : Tape α, (drawSample m).on (tape ++ rest) = (.ok s, rest) := by
  rcases hprobability : m.probability with _ | q
  · rw [drawSample_none hprobability]
    rcases Nat.eq_or_lt_of_le (Nat.succ_le_of_lt hm.count) with hone | hmany
    · refine ⟨[], 0, fun rest => ?_⟩
      rw [← hone]
      rfl
    · exact ⟨[(⟨0, le_rfl, zero_lt_one⟩, 0)], _, fun rest => Source.draw_on hmany⟩
  · obtain ⟨hlength, hsign⟩ := hm.fits hprobability
    rw [drawSample_some hprobability, ← hlength]
    refine ⟨[(⟨0, le_rfl, zero_lt_one⟩, 0)], Source.position q 0, fun rest => ?_⟩
    exact (Source.choose_on_of_nonneg (hlength ▸ hm.count.ne') hsign _).1 (h q hprobability)

theorem Charted.exists_tape_drawState (hp : p.Charted) {t j k : ℕ} (ht : t + 1 < p.horizon)
    (hj : j ∈ p.reachableStates t) (hmoves : Source.Exact (p.moves (t + 1) j))
    (hpos : 0 < p.transitionAt (t + 1) j k) :
    ∃ tape : Tape α, ∀ rest : Tape α,
      (p.drawState (t + 1 : ℕ) j).on (tape ++ rest) = (.ok k, rest) := by
  have hsign := (hp.transition_eq ht hj).2.2.1
  obtain ⟨x, hx, hx', hposition⟩ := Source.exists_position hsign (k := k) hpos
  refine ⟨[(⟨x, hx, hx'⟩, 0)], fun rest => ?_⟩
  rw [hp.drawState_on ht hj,
    (Source.choose_on_of_nonneg (hp.length_moves_ne ht hj) hsign _).1 hmoves]
  exact Prod.ext (congrArg Except.ok hposition) rfl

/-- A pass that no tape makes fail for a sum. -/
def NeverFails (p : Multistage α) : Prop :=
  ∀ tape tape' : Tape α, p.drawPath.on tape ≠ (.error (.value .distribution), tape')

section

variable (hp : p.Charted) (hnever : p.NeverFails) {t j k : ℕ}
include hp

omit [IsStrictOrderedRing α] in
theorem Charted.arrives_zero : p.Arrives 0 0 := by
  refine ⟨[], fun rest rest' e h => ?_⟩
  have hhorizon : p.horizon = p.horizon - (0 + 1) + 1 := by
    have := hp.horizon
    omega
  rw [drawPath, hhorizon, drawFrom, Run.bind_ok _ (drawStage_zero p 0 _), List.nil_append]
  exact Run.bind_error _ h

include hnever

theorem Charted.exact_moves (ht : t + 1 < p.horizon) (hj : j ∈ p.reachableStates t)
    (harrives : p.Arrives t j) :
    Source.Exact (p.moves (t + 1) j) := by
  obtain ⟨tape, htape⟩ := harrives
  have hsteps : p.horizon - (t + 1) = p.horizon - (t + 1 + 1) + 1 := by omega
  by_contra hno
  refine hnever _ [] (htape [] [] _ ?_)
  rw [hsteps, drawFrom]
  exact Run.bind_error _ (Run.bind_error _ (hp.drawState_error ht hj hno _))

theorem Charted.exact_samples (ht : t + 1 < p.horizon) (hj : j ∈ p.reachableStates t)
    (harrives : p.Arrives t j)
    (hpos : 0 < p.transitionAt (t + 1) j k) (hm : p.stageAt (t + 1) k = some m)
    (hweighted : m.Weighted) {q : List α} (hq : m.probability = some q) : Source.Exact q := by
  obtain ⟨tape₁, hstate⟩ := hp.exists_tape_drawState ht hj
    (hp.exact_moves hnever ht hj harrives) hpos
  obtain ⟨tape, htape⟩ := harrives
  have hsteps : p.horizon - (t + 1) = p.horizon - (t + 1 + 1) + 1 := by omega
  have hmodel : p.model (t + 1 : ℕ) k = .ok m := by rw [model_eq, hm]
  by_contra hno
  refine hnever _ [] (htape (tape₁ ++ []) [] _ ?_)
  rw [hsteps, drawFrom]
  refine Run.bind_error _ ?_
  rw [drawStage, Run.bind_ok _ (hstate []), if_neg (Nat.succ_ne_zero t), hmodel,
    Run.bind_ok _ (Run.ofExcept_on _ _)]
  exact Run.bind_error _ (drawSample_error hweighted hq hno _)

variable (hw : p.Weighted)
include hw

theorem Charted.arrives (ht : t < p.horizon) (hj : j ∈ p.reachableStates t) : p.Arrives t j := by
  induction t generalizing j with
  | zero =>
    rw [hp.reachableStates_zero] at hj
    obtain rfl := List.mem_singleton.mp hj
    exact hp.arrives_zero
  | succ t ih =>
    obtain ⟨i, hi, hpos⟩ := (hp.mem_reachableStates_succ ht).mp hj
    have harrives := ih (Nat.lt_of_succ_lt ht) hi
    obtain ⟨m, hm, hmodel⟩ := hp.exists_model (hp.lt_counts hj).2
    have hweighted := hw (t + 1) j m hj hm
    obtain ⟨tape₁, hstate⟩ := hp.exists_tape_drawState ht hi
      (hp.exact_moves hnever ht hi harrives) hpos
    obtain ⟨tape₂, s, hsample⟩ :=
      exists_tape_of_exact hweighted fun q =>
        hp.exact_samples hnever ht hi harrives hpos hm hweighted
    obtain ⟨tape, htape⟩ := harrives
    have hsteps : p.horizon - (t + 1) = p.horizon - (t + 1 + 1) + 1 := by omega
    refine ⟨tape ++ (tape₁ ++ tape₂), fun rest rest' e h => ?_⟩
    rw [List.append_assoc]
    refine htape _ rest' e ?_
    rw [hsteps, drawFrom, List.append_assoc,
      Run.bind_ok _ (drawStage_on (hstate _) hmodel (hsample rest))]
    exact Run.bind_error _ h

/-- If no pass fails for a sum, all sums are taken for one. -/
theorem Charted.drawable_of_neverFails : p.Drawable where
  moves := fun t j ht hj =>
    hp.exact_moves hnever ht hj (hp.arrives hnever hw (Nat.lt_of_succ_lt ht) hj)
  samples := fun t k m q ht hk hm hq => by
    obtain ⟨j, hj, hpos⟩ := (hp.mem_reachableStates_succ ht).mp hk
    exact hp.exact_samples hnever ht hj (hp.arrives hnever hw (Nat.lt_of_succ_lt ht) hj) hpos hm
      (hw (t + 1) k m hk hm) hq

end

/-- What is accepted can be drawn, if the sums of its distributions are taken for one: then a draw
after a reachable state gives a reachable state, and a draw of a sample gives one of the scenarios.
A draw from a sum that is not taken for one fails, takes nothing from the source, and says that this
is no distribution. So a pass of draws through all stages never fails if all sums are taken for one,
and only then. -/
theorem Charted.drawn_iff_drawable (hp : p.Charted) (hw : p.Weighted) :
    (∀ (γ : Type) [Source γ α], Lawful γ → ∀ (g : γ) (t : ℕ), t + 1 < p.horizon →
      (∀ j ∈ p.reachableStates t,
        (Source.Exact (p.moves (t + 1) j) →
          ∃ k ∈ p.reachableStates (t + 1), ∃ g', (p.drawState (t + 1 : ℕ) j).on g = (.ok k, g')) ∧
        (¬ Source.Exact (p.moves (t + 1) j) →
          (p.drawState (t + 1 : ℕ) j).on g = (.error (.value .distribution), g))) ∧
      ∀ k ∈ p.reachableStates (t + 1), ∀ m, p.stageAt (t + 1) k = some m →
        ((∀ q, m.probability = some q → Source.Exact q) →
          ∃ s < m.sampleCount, ∃ g', (drawSample m).on g = (.ok s, g')) ∧
        ∀ q, m.probability = some q → ¬ Source.Exact q →
          (drawSample m).on g = (.error (.value .distribution), g)) ∧
    (p.Drawable → ∀ (γ : Type) [Source γ α],
      Lawful γ → ∀ g : γ, ∃ path g', p.drawPath.on g = (.ok path, g')) ∧
    (¬ p.Drawable → ∃ tape tape' : Tape α,
      p.drawPath.on tape = (.error (.value .distribution), tape')) := by
  refine ⟨fun γ _ hg g t ht =>
    ⟨fun j hj => ⟨fun h => hp.drawState_ok hg ht hj h g, fun h => hp.drawState_error ht hj h g⟩,
    fun k hk m hm => ⟨fun h => drawSample_ok hg (hw _ k m hk hm) h g, fun q hq h =>
      drawSample_error (hw _ k m hk hm) hq h g⟩⟩, fun h γ _ hg g => ?_, fun h => ?_⟩
  · have hhorizon : p.horizon = p.horizon - 1 + 1 := by
      have := hp.horizon
      omega
    have hzero : 0 ∈ p.reachableStates 0 := by
      rw [hp.reachableStates_zero]
      exact List.mem_singleton_self 0
    obtain ⟨rest, g', hrest⟩ := hp.drawFrom_ok hw hg h (n := p.horizon - 1) (by omega) hzero g
    refine ⟨(0, 0) :: rest, g', ?_⟩
    rw [drawPath, hhorizon, drawFrom, Run.bind_ok _ (drawStage_zero p 0 g)]
    exact Run.bind_ok _ hrest
  · by_contra hno
    exact h (hp.drawable_of_neverFails (fun tape tape' hfail => hno ⟨tape, tape', hfail⟩) hw)

end Multistage

namespace Problems

/-- Two Markov states whose probabilities make one to four decimal places, but not to eight. -/
def roundedChain : Datum ℚ :=
  .list [.list [.list [.int 1]], .list [.list [.real (1 / 2), .real (49998 / 100000)]]]

def evenOdds : Datum ℚ := .list [.real (1 / 2), .real (1 / 2)]

def twoScenarios : Stage ℚ := { Stage.empty "" .null .null .minimize with sampleCount := 2 }

theorem setProbability_evenOdds : ((Stage.setProbability evenOdds).on twoScenarios).1 = .ok () ∧
    ((Stage.setProbability evenOdds).on twoScenarios).2.probability = some [1 / 2, 1 / 2] := by
  have hok : ((Stage.setProbability evenOdds).on twoScenarios).1.isOk = true := by decide +kernel
  exact ⟨congrArg Prod.fst (Run.on_of_isOk hok), by decide +kernel⟩

def roundedSteps : List (Multistage.WriteStep ℚ) :=
  [.chain roundedChain, .model 1 0
    (.column { name := .text "x", lower := .int 0, upper := .int 9, cost := .int 1 }),
    .model 1 0 (.row ⟨[(0, 1)], 0, .atLeast, 0⟩ (.text "demand")
    (some (.record [("rhs", .list [.int 1, .int 2])]))),
    .model 1 0 (.probability evenOdds)]

end Problems

open Multistage in
theorem Problems.roundedChain_accepted :
    ∃ p P : Multistage ℚ, create (outline (.int 2) (.int 0)) = .ok p ∧
    (setChain roundedChain).on p = (.ok (), P) ∧
    (write roundedSteps p).models.flatten.map (fun m => (m.sampleCount, m.probability)) =
      [(1, none), (2, some [1 / 2, 1 / 2]), (1, none)] ∧
    ∀ Q ∈ [P, write roundedSteps p],
      Q.horizon = 2 ∧ 0 ∈ Q.reachableStates 0 ∧ ¬ Source.Exact (Q.moves 1 0) := by
  obtain ⟨p, hp, hok, hmodels, hboth⟩ : ∃ p : Multistage ℚ,
    p ∈ (create (outline (.int 2) (.int 0))).toOption ∧
      ((setChain roundedChain).on p).1.isOk = true ∧
      (write roundedSteps p).models.flatten.map (fun m => (m.sampleCount, m.probability)) =
        [(1, none), (2, some [1 / 2, 1 / 2]), (1, none)] ∧
      ∀ Q ∈ [((setChain roundedChain).on p).2, write roundedSteps p],
        Q.horizon = 2 ∧ 0 ∈ Q.reachableStates 0 ∧ Q.moves 1 0 = [1 / 2, 49998 / 100000] := by
        decide +kernel
  have hrounded : ¬ Source.Exact ([1 / 2, 49998 / 100000] : List ℚ) := by
    rw [Source.Exact]
    decide +kernel
  refine ⟨p, _, ok_of_toOption hp, Run.on_of_isOk hok, hmodels, fun Q hQ => ?_⟩
  obtain ⟨hhorizon, hzero, hmoves⟩ := hboth Q hQ
  exact ⟨hhorizon, hzero, hmoves ▸ hrounded⟩

open Multistage in
/-- A chain is accepted, and the first draw from it fails. -/
theorem Problems.drawState_roundedChain :
    ∃ p P : Multistage ℚ, create (Problems.outline (.int 2) (.int 0)) = .ok p ∧
    (setChain roundedChain).on p = (.ok (), P) ∧ 0 ∈ P.reachableStates 0 ∧
    ∀ g : ℕ, (P.drawState 1 0).on g = (.error (.value .distribution), g) := by
  obtain ⟨p, P, hcreate, hset, -, hrounded⟩ := Problems.roundedChain_accepted
  obtain ⟨hhorizon, hzero, hloose⟩ := hrounded P (by simp)
  obtain ⟨hcharted, hasked⟩ := charted_of_create hcreate
  refine ⟨p, P, hcreate, hset, hzero, fun g => ?_⟩
  exact (hcharted.setChain hasked hset).drawState_error (by rw [hhorizon]; decide) hzero hloose g

open Multistage in
theorem Multistage.Charted.drawn_iff_drawable_rounded : ∃ p : Multistage ℚ,
    create (Problems.outline (.int 2) (.int 0)) = .ok p ∧ (write Problems.roundedSteps p).Charted ∧
    (write Problems.roundedSteps p).Weighted ∧
    ∃ tape tape' : Tape ℚ,
    (write Problems.roundedSteps p).drawPath.on tape = (.error (.value .distribution), tape') := by
  obtain ⟨p, _, hcreate, -, hmodels, hrounded⟩ := Problems.roundedChain_accepted
  obtain ⟨hhorizon, hzero, hloose⟩ := hrounded (write Problems.roundedSteps p) (by simp)
  set P := write Problems.roundedSteps p
  have hcharted : P.Charted := ((written_of_create hcreate).write Problems.roundedSteps).charted
  have hweighted : P.Weighted := by
    intro t k m _ hm
    obtain ⟨ms, hms, hm⟩ := Option.bind_eq_some_iff.mp hm
    have hmem : (m.sampleCount, m.probability) ∈ P.models.flatten.map
        fun m => (m.sampleCount, m.probability) :=
      List.mem_map.mpr ⟨m, List.mem_flatten.mpr
        ⟨ms, List.mem_of_getElem? hms, List.mem_of_getElem? hm⟩, rfl⟩
    rw [hmodels] at hmem
    have hcertain (hcount : m.sampleCount = 1) (hnone : m.probability = none) : m.Weighted :=
      ⟨by omega, fun q hq => absurd (hnone.symm.trans hq) (Option.some_ne_none q).symm⟩
    simp only [List.mem_cons, Prod.mk.injEq, List.not_mem_nil, or_false] at hmem
    obtain ⟨hcount, hnone⟩ | ⟨hcount, hsome⟩ | ⟨hcount, hnone⟩ := hmem
    · exact hcertain hcount hnone
    · obtain ⟨hok, hset⟩ := Problems.setProbability_evenOdds
      exact ⟨by omega, fun q hq => ⟨_, _, hcount.symm, hok, hset.trans (hsome.symm.trans hq)⟩⟩
    · exact hcertain hcount hnone
  have hundrawable : ¬ P.Drawable := fun h => hloose (h.moves 0 0 (by rw [hhorizon]; decide) hzero)
  exact ⟨p, hcreate, hcharted, hweighted, (hcharted.drawn_iff_drawable hweighted).2.2 hundrawable⟩

end Recourse
