import Recourse.Proofs.Multistage.Draft
import Recourse.Proofs.Multistage.Jobs
import Recourse.Proofs.Multistage.Label
import Recourse.Proofs.Resumption

/-! When training stops. A run ends as converged after the first iteration whose bound has been
steady for long enough, or after which an evaluation shows that the policy is good enough; without
such an iteration it makes as many as its limit allows. In a risk-averse problem no evaluation ends
a run. -/

namespace Recourse

open Run (Keeps Triple)

variable {γ α : Type} [Field α] [LinearOrder α]

/-! ### Steady bounds -/

def boundBefore (before : Option α) (bounds : List α) : ℕ → Option α
  | 0 => before
  | i + 1 => bounds[i]?

/-- Whether the bound at a place differs by no more than a relative tolerance from the one
before. -/
def IsSteady (ε : α) (before : Option α) (bounds : List α) (i : ℕ) : Prop :=
  ∃ a ∈ boundBefore before bounds i, ∃ b ∈ bounds[i]?, |b - a| ≤ ε * max 1 |b|

/-- Whether the last `k` bounds up to a place are steady, all of them bounds of the run. -/
def SteadyFor (ε : α) (before : Option α) (bounds : List α) (k : ℤ) (i : ℕ) : Prop :=
  ∀ j : ℤ, i - k < j → j ≤ i → ∃ m : ℕ, (m : ℤ) = j ∧ IsSteady ε before bounds m

section

variable {ε b : α} {before : Option α} {bounds : List α}

theorem isSteady_cons (i : ℕ) : IsSteady ε before (b :: bounds) (i + 1) ↔
    IsSteady ε (some b) bounds i := by
  cases i <;> rfl

theorem steadyFor_of_nonpos {k : ℤ} (hk : k ≤ 0) (i : ℕ) : SteadyFor ε before bounds k i := by
  intro j hj hji
  omega

theorem steadyFor_succ {i : ℕ} (h : IsSteady ε before bounds (i + 1)) (k : ℤ) :
    SteadyFor ε before bounds (k + 1) (i + 1) ↔ SteadyFor ε before bounds k i := by
  constructor
  · intro hsteady j hj hji
    exact hsteady j (by push_cast; omega) (by push_cast; omega)
  · intro hsteady j hj hji
    push_cast at hj hji
    by_cases hlast : j = i + 1
    · exact ⟨i + 1, by rw [hlast]; push_cast; rfl, h⟩
    · exact hsteady j (by omega) (by omega)

theorem steadyFor_zero (h : IsSteady ε before bounds 0) (k : ℤ) : SteadyFor ε before bounds k 0 ↔
    k ≤ 1 := by
  constructor
  · intro hsteady
    by_contra hk
    obtain ⟨m, hm, -⟩ := hsteady (-1) (by push_cast; omega) (by simp)
    omega
  · intro hk j hj hji
    push_cast at hj hji
    exact ⟨0, by push_cast; omega, h⟩

theorem steadyFor_of_not {i : ℕ} (h : ¬ IsSteady ε before bounds i) (k : ℤ) :
    SteadyFor ε before bounds k i ↔ k ≤ 0 := by
  constructor
  · intro hsteady
    by_contra hk
    obtain ⟨m, hm, hsteady⟩ := hsteady i (by omega) le_rfl
    exact h (Int.natCast_inj.mp hm ▸ hsteady)
  · intro hk
    exact steadyFor_of_nonpos hk i

/-- A counter of steady bounds that starts anew wherever a bound is not steady. -/
def Counts (ε : α) (before : Option α) (bounds : List α) (s : ℕ → ℕ) (i : ℕ) : Prop :=
  ∃ steady : Bool, s (i + 1) = (if steady then s i + 1 else 0) ∧
    (steady = true ↔ IsSteady ε before bounds i)

/-- Such a counter tells for how long the bounds have been steady. -/
theorem le_counter_iff {s : ℕ → ℕ} {i : ℕ} (hstart : s 0 = 0)
    (h : ∀ j ≤ i, Counts ε before bounds s j) (k : ℤ) :
    k ≤ s (i + 1) ↔ SteadyFor ε before bounds k i := by
  induction i generalizing k with
  | zero =>
    obtain ⟨steady, hs, hsteady⟩ := h 0 le_rfl
    rw [hs, hstart]
    cases steady with
    | true => simp [steadyFor_zero (hsteady.mp rfl)]
    | false => simp [steadyFor_of_not fun hnow => Bool.false_ne_true (hsteady.mpr hnow)]
  | succ i ih =>
    obtain ⟨steady, hs, hsteady⟩ := h (i + 1) le_rfl
    rw [hs]
    cases steady with
    | true =>
      have hbefore := ih (fun j hj => h j (by omega)) (k - 1)
      have hnow := steadyFor_succ (hsteady.mp rfl) (k - 1)
      rw [sub_add_cancel] at hnow
      rw [hnow, ← hbefore, if_pos rfl]
      omega
    | false => simp [steadyFor_of_not fun hnow => Bool.false_ne_true (hsteady.mpr hnow)]

end

variable [Numeral α]

/-! ### Plans -/

/-- A datum that stands for a number, in arithmetic and beside other numbers. -/
structure Datum.Denotes (d : Datum α) (x : α) : Prop where
  asNumber : d.asNumber = .ok x
  reaches : ∀ y, d.reaches (.real y) = .ok (decide (y ≤ x))

theorem Datum.denotes_real (x : α) : (Datum.real x).Denotes x where
  asNumber := rfl
  reaches y := by
    have horder : (Datum.real x).order (.real y) = .ok (compareReal x y) := rfl
    rw [Datum.reaches, horder]
    rcases lt_trichotomy x y with h | rfl | h
    · simp [compareReal, h]
    · simp [compareReal]
    · simp [compareReal, h, h.le, h.le.not_gt]

/-- A plan with a limit of `n` iterations that ends after `k` steady bounds, and evaluates
periodically or never. -/
structure TrainingPlan.Spells (o : TrainingPlan α) (n k : ℤ) (ε : α) (period : Option ℤ) :
    Prop where
  limit : o.maxIterations = .int n
  steady : o.maxStable = .int k
  tolerance : o.stableTolerance.Denotes ε
  period : o.evaluationPeriod = period.elim .null .int

variable {o : TrainingPlan α} {n k : ℤ} {ε : α} {period : Option ℤ}

theorem TrainingPlan.Spells.isDue (ho : o.Spells n k ε period) {iteration : ℕ} {due : Bool}
    (h : o.isDue iteration = .ok due) : due = true ↔ ∃ f ∈ period, f ∣ (iteration : ℤ) := by
  rw [TrainingPlan.isDue, ho.period] at h
  cases period with
  | none =>
    obtain rfl : false = due := by simpa using h
    simp
  | some f =>
    obtain ⟨p, hp, h⟩ := ok_of_bind h
    obtain rfl : f = p := by simpa [Datum.asWhole, Datum.int?] using hp
    split_ifs at h with hzero
    · cases h
    · obtain rfl : ((iteration : ℤ) % f == 0) = due := Except.ok.inj h
      rw [beq_iff_eq, ← Int.dvd_iff_emod_eq_zero]
      simp

theorem Standing.isStable_iff [IsStrictOrderedRing α] {tolerance : Datum α}
    (ht : tolerance.Denotes ε) (g : Standing α) (b : α) {stable : Bool}
    (h : g.isStable tolerance b = .ok stable) :
    stable = true ↔ ∃ a ∈ g.previous, |b - a| ≤ ε * max 1 |b| := by
  unfold isStable at h
  cases hprevious : g.previous with
  | none =>
    obtain rfl : false = stable := by simpa [hprevious] using h
    simp
  | some a =>
    simp only [hprevious, Scalar.abs_eq] at h
    split_ifs at h with hlarge
    · rw [ht.asNumber] at h
      obtain rfl : decide (|b - a| ≤ ε * |b|) = stable := by simpa using h
      simp [max_eq_right hlarge.le]
    · rw [ht.reaches] at h
      obtain rfl : decide (|b - a| ≤ ε) = stable := by simpa using h
      simp [max_eq_left (not_lt.mp hlarge)]

/-! ### The iterations of a run -/

/-- An iteration of a run: its bound, and where the run and the session stood when it was
counted. -/
structure Lap (γ α : Type) where
  bound : α
  standing : Standing α
  session : Session γ α

namespace Session

variable [Source γ α] [Inference α] {lp : Solver α} {g : Standing α} {x y : Session γ α}
  {l : Lap γ α}
  {laps : List (Lap γ α)}

def Counted (lp : Solver α) (o : TrainingPlan α) (g : Standing α) (x : Session γ α) (l : Lap γ α) :
    Prop :=
  (count lp o g (o.signal (x.record.iteration + 1))).on x = (.ok (l.bound, l.standing), l.session)

def Convinces (lp : Solver α) (o : TrainingPlan α) (period : Option ℤ) (x : Session γ α) : Prop :=
  (∃ f ∈ period, f ∣ (x.record.iteration : ℤ)) ∧
    ∃ e y, (evaluate lp (o.evaluationPlan x.record.workers)).on x = (.ok e, y) ∧
      e.converged y.simulation.problem o.tolerance = .ok true

/-- Iterations one after the other: after each of them but the last one, the review found nothing
good enough. -/
inductive Course (lp : Solver α) (o : TrainingPlan α) : Standing α → Session γ α →
    List (Lap γ α) → Prop
  | nil (g : Standing α) (x : Session γ α) : Course lp o g x []
  | last {g : Standing α} {x : Session γ α} {l : Lap γ α} (h : Counted lp o g x l) :
    Course lp o g x [l]
  | next {g k : Standing α} {x y : Session γ α} {l : Lap γ α} {laps : List (Lap γ α)}
    (h : Counted lp o g x l)
    (hreview : (review lp o l.bound l.standing (o.signal l.session.record.iteration)).on l.session =
      (.ok (false, k), y))
    (hrest : Course lp o k y laps) :
    Course lp o g x (l :: laps)

structure Tallied (o : TrainingPlan α) (g : Standing α) (x : Session γ α) (l : Lap γ α) : Prop where
  previous : l.standing.previous = some l.bound
  done : l.standing.done = g.done + 1
  bounds : l.session.record.bounds = x.record.bounds ++ [l.bound]
  iteration : l.session.record.iteration = x.record.iteration + 1
  steady : ∃ steady, g.isStable o.stableTolerance l.bound = .ok steady ∧
    l.standing.stable = if steady then g.stable + 1 else 0

theorem Counted.tallied (hl : Counted lp o g x l) : Tallied o g x l := by
  obtain ⟨steady, values, hsteady, hstanding, hrecord⟩ := count_on hl
  exact ⟨by rw [hstanding]; rfl, by rw [hstanding]; rfl, by rw [hrecord], by rw [hrecord],
    steady, hsteady, by rw [hstanding]; rfl⟩

theorem exists_of_evaluate {plan : EvaluationPlan α} {limit : Option ℕ} {e : Evaluation α}
    (h : (evaluate lp plan limit).on x = (.ok e, y)) :
    ∃ a : Assessment γ α, (Evaluation.run lp plan limit).on
        { evaluation := Evaluation.new x.simulation.problem, simulation := x.simulation } =
        (.ok (), a) ∧
      a.evaluation = e ∧ a.simulation = y.simulation := by
  set start : Assessment γ α :=
    { evaluation := Evaluation.new x.simulation.problem, simulation := x.simulation }
  set run := (Evaluation.run lp plan limit).on start with hrun
  have h : (run.1.map fun _ => run.2.evaluation, { x with simulation := run.2.simulation }) =
      (Except.ok e, y) := h
  rcases run with ⟨_ | _, a⟩ <;> cases h
  exact ⟨a, rfl, rfl, rfl⟩

theorem limit_of_evaluate {plan : EvaluationPlan α} {limit : Option ℕ} {e : Evaluation α}
    (h : (evaluate lp plan limit).on x = (.ok e, y)) : limit = none := by
  obtain ⟨a, h, -, -⟩ := exists_of_evaluate h
  obtain ⟨_, x₁, -, h⟩ := Run.exists_of_bind h
  obtain ⟨_, x₂, -, h⟩ := Run.exists_of_bind h
  obtain ⟨found, x₃, h, -⟩ := Run.exists_of_bind h
  obtain ⟨seed, x₄, -, h⟩ := Run.exists_of_bind h
  rw [Run.bind_ok _ (Run.get_on x₄)] at h
  obtain ⟨workers, x₅, -, h⟩ := Run.exists_of_bind h
  obtain ⟨walks, x₆, hwalks, -⟩ := Run.exists_of_bind h
  exact Multistage.limit_of_walkJobs (P := x₅.simulation.problem)
    (Prod.ext (congrArg Prod.fst hwalks :) rfl)

/-- A review counts no iteration and leaves the record as it is. It is convinced by its
evaluation. -/
theorem review_spec (ho : o.Spells n k ε period) {bound : α} {good : Bool} {g' : Standing α}
    {signal : Signal} (h : (review lp o bound g signal).on x = (.ok (good, g'), y)) :
    (good = true ↔ Convinces lp o period x) ∧ g'.stable = g.stable ∧ g'.previous = g.previous ∧
    g'.done = g.done ∧
      y.record = x.record := by
  have hrecord : y.record = x.record :=
    ((review_keeps_of (I := fun z => z.record = x.record)
      (fun _ _ => Keeps.iff_on.mpr fun _ hz => hz)
      (fun _ _ hz => hz) o bound g signal) x rfl).1 _ _ h
  unfold review at h
  rw [Run.bind_ok _ (Run.get_on x)] at h
  obtain ⟨due, x₁, hdue, h⟩ := Run.exists_of_bind h
  obtain rfl : x = x₁ := congrArg Prod.snd hdue
  have hperiod := ho.isDue (congrArg Prod.fst hdue :)
  cases due with
  | false =>
    cases h
    refine ⟨⟨nofun, fun hconvinces => ?_⟩, rfl, rfl, rfl, rfl⟩
    exact hperiod.mpr hconvinces.1
  | true =>
    rw [if_neg (by simp), Run.bind_ok _ (Run.get_on x)] at h
    obtain ⟨e, x₁, hevaluate, h⟩ := Run.exists_of_bind h
    rw [limit_of_evaluate hevaluate] at hevaluate
    obtain ⟨figure, x₂, hfigure, h⟩ := Run.exists_of_bind h
    obtain rfl : x₁ = x₂ := congrArg Prod.snd hfigure
    cases hgap : e.gap with
    | none =>
      rw [hgap] at h
      cases h
    | some gap =>
      simp only [hgap] at h
      rw [tell, Run.bind_ok _ (Run.modify_on _ _)] at h
      obtain ⟨-, h⟩ := Run.of_breakOff h
      rw [Run.bind_ok _ (Run.get_on _)] at h
      obtain ⟨good', x₂, hgood, h⟩ := Run.exists_of_bind h
      have hconverged : e.converged x₁.simulation.problem o.tolerance = .ok good' :=
        congrArg Prod.fst hgood
      cases h
      refine ⟨⟨fun htrue => ⟨hperiod.mp rfl, e, x₁, hevaluate, htrue ▸ hconverged⟩, ?_⟩, rfl, rfl,
        rfl, hrecord⟩
      rintro ⟨-, e', y', hevaluate', hconverged'⟩
      rw [hevaluate] at hevaluate'
      cases hevaluate'
      rw [hconverged] at hconverged'
      exact Except.ok.inj hconverged'

def Ends (lp : Solver α) (o : TrainingPlan α) (k : ℤ) (period : Option ℤ) (l : Lap γ α) : Prop :=
  k ≤ l.standing.stable ∨ Convinces lp o period l.session

/-- An iteration is interrupted, or it is counted and the run ends as converged, or it is counted
and reviewed and the run goes on. -/
theorem iteration_cases (ho : o.Spells n k ε period) {ending : Option Ending} {g' : Standing α}
    (h : (iteration lp o g (o.signal (x.record.iteration + 1))).on x = (.ok (ending, g'), y)) :
    ending = some .interrupted ∨ ∃ l : Lap γ α, Counted lp o g x l ∧ y.record = l.session.record ∧
      (ending = some .converged ∧ Ends lp o k period l ∨ ending = none ∧ ¬ Ends lp o k period l ∧
        (review lp o l.bound l.standing (o.signal l.session.record.iteration)).on l.session =
        (.ok (false, g'), y)) := by
  obtain h | ⟨-, hanswer, -⟩ := Run.of_interruptible h
  swap
  · cases hanswer
    exact .inl rfl
  right
  obtain ⟨⟨bound, g₁⟩, x₁, hcount, h⟩ := Run.exists_of_bind h
  have hcounted : Counted lp o g x ⟨bound, g₁, x₁⟩ := hcount
  have hiteration : x₁.record.iteration = x.record.iteration + 1 := hcounted.tallied.iteration
  refine ⟨⟨bound, g₁, x₁⟩, hcounted, ?_⟩
  obtain ⟨long, x₂, hlong, h⟩ := Run.exists_of_bind h
  obtain rfl : x₁ = x₂ := congrArg Prod.snd hlong
  have hlong : (Datum.int g₁.stable).reaches o.maxStable = .ok long := congrArg Prod.fst hlong
  rw [ho.steady, Datum.reaches_int] at hlong
  obtain rfl : decide (k ≤ g₁.stable) = long := Except.ok.inj hlong
  by_cases hsteady : k ≤ g₁.stable
  · rw [decide_eq_true hsteady] at h
    cases h
    exact ⟨rfl, .inl ⟨rfl, .inl hsteady⟩⟩
  · rw [decide_eq_false hsteady] at h
    obtain ⟨⟨good, g₂⟩, x₂, hreview, h⟩ := Run.exists_of_bind h
    obtain ⟨hconvinces, -, -, -, hrecord⟩ := review_spec ho hreview
    cases good with
    | true =>
      cases h
      exact ⟨hrecord, .inl ⟨rfl, .inr (hconvinces.mp rfl)⟩⟩
    | false =>
      cases h
      dsimp only
      rw [hiteration]
      refine ⟨hrecord, .inr ⟨rfl, ?_, hreview⟩⟩
      rintro (hlong | hgood)
      · exact hsteady hlong
      · exact Bool.false_ne_true (hconvinces.mpr hgood)

def steadyBefore (g : Standing α) (laps : List (Lap γ α)) : ℕ → ℕ
  | 0 => g.stable
  | i + 1 => (laps[i]?.map fun l => l.standing.stable).getD 0

section

variable [IsStrictOrderedRing α] (ho : o.Spells n k ε period)
include ho

theorem Counted.counts (h : Counted lp o g x l) (laps : List (Lap γ α)) :
    Counts ε g.previous ((l :: laps).map Lap.bound) (steadyBefore g (l :: laps)) 0 := by
  obtain ⟨steady, hsteady, hstable⟩ := h.tallied.steady
  refine ⟨steady, hstable, ?_⟩
  rw [g.isStable_iff ho.tolerance l.bound hsteady]
  simp [IsSteady, boundBefore]

theorem Course.counts (h : Course lp o g x laps) {i : ℕ} (hi : i < laps.length) :
    Counts ε g.previous (laps.map Lap.bound) (steadyBefore g laps) i := by
  induction h generalizing i with
  | nil => simp at hi
  | last hl =>
    obtain rfl : i = 0 := by simpa using hi
    exact hl.counts ho []
  | @next g g' x y l laps hl hreview hrest ih =>
    cases i with
    | zero => exact hl.counts ho laps
    | succ i =>
      obtain ⟨steady, hstable, hsteady⟩ := ih (i := i) (by simpa using hi)
      obtain ⟨-, hstable', hprevious, -, -⟩ := review_spec ho hreview
      have hbefore : steadyBefore g' laps i = steadyBefore g (l :: laps) (i + 1) := by
        cases i with
        | zero => exact hstable'
        | succ i => rfl
      rw [hbefore] at hstable
      rw [hprevious, hl.tallied.previous] at hsteady
      exact ⟨steady, hstable, hsteady.trans (isSteady_cons i).symm⟩

/-- From a fresh start, the counter tells for how long the bounds have been steady. -/
theorem Course.le_stable_iff (h : Course lp o g x laps) (hg : g.stable = 0) {i : ℕ}
    (hi : laps[i]? = some l) :
    k ≤ l.standing.stable ↔ SteadyFor ε g.previous (laps.map Lap.bound) k i := by
  have hlength : i < laps.length := (List.getElem?_eq_some_iff.mp hi).1
  have hcounter : steadyBefore g laps (i + 1) = l.standing.stable := by simp [steadyBefore, hi]
  rw [← hcounter]
  exact le_counter_iff hg (fun j hj => h.counts ho (by omega)) k

omit [IsStrictOrderedRing α] in
theorem Course.iteration (h : Course lp o g x laps) {i : ℕ} (hi : laps[i]? = some l) :
    l.session.record.iteration = x.record.iteration + i + 1 := by
  induction h generalizing i with
  | nil => simp at hi
  | last hl =>
    obtain ⟨rfl, rfl⟩ : i = 0 ∧ _ := by simpa [List.getElem?_singleton] using hi
    exact hl.tallied.iteration
  | next hl hreview hrest ih =>
    cases i with
    | zero =>
      obtain rfl : _ = l := by simpa using hi
      exact hl.tallied.iteration
    | succ i =>
      obtain ⟨-, -, -, -, hrecord⟩ := review_spec ho hreview
      rw [ih (i := i) (by simpa using hi), hrecord, hl.tallied.iteration]
      omega

end

/-- How a run that has made some iterations ends, if its limit is `n`: after the first one that lets
it end as converged, or at its limit if there is none. -/
inductive Finish (lp : Solver α) (o : TrainingPlan α) (n k : ℤ) (period : Option ℤ) (done : ℕ) :
    List (Lap γ α) → Ending → Prop
  | converged (earlier : List (Lap γ α)) (l : Lap γ α)
    (hlimit : (done + earlier.length + 1 : ℤ) ≤ n)
    (hends : Ends lp o k period l) (hbefore : ∀ l ∈ earlier, ¬ Ends lp o k period l) :
    Finish lp o n k period done (earlier ++ [l]) .converged
  | exhausted {laps : List (Lap γ α)} (hlimit : (done + laps.length : ℤ) = max (done : ℤ) n)
    (hbefore : ∀ l ∈ laps, ¬ Ends lp o k period l) :
      Finish lp o n k period done laps .iterationLimit

theorem Finish.at_limit {done : ℕ} (h : n ≤ done) :
    Finish (γ := γ) lp o n k period done [] .iterationLimit := by
  refine .exhausted ?_ (by simp)
  simpa using h

theorem Finish.cons {done : ℕ} {ending : Ending} (hn : done < n) (hl : ¬ Ends lp o k period l)
    (h : Finish lp o n k period (done + 1) laps ending) :
    Finish lp o n k period done (l :: laps) ending := by
  cases h with
  | converged earlier l' hlimit hends hbefore =>
    refine .converged (l :: earlier) l' ?_ hends (List.forall_mem_cons.mpr ⟨hl, hbefore⟩)
    rw [List.length_cons]
    push_cast at hlimit ⊢
    omega
  | exhausted hlimit hbefore =>
    refine .exhausted ?_ (List.forall_mem_cons.mpr ⟨hl, hbefore⟩)
    rw [List.length_cons]
    push_cast at hlimit ⊢
    omega

/-- A run that is neither overdue nor interrupted is at its limit, or it makes an iteration that
ends it or after which it goes on. -/
theorem iterate_cases (ho : o.Spells n k ε period) {fuel : ℕ} {ending : Ending}
    (h : (iterate lp o (fuel + 1) g).on x = (.ok ending, y)) (htime : ending ≠ .timeLimit)
    (hstop : ending ≠ .interrupted) :
    n ≤ g.done ∧ ending = .iterationLimit ∧ y = x ∨ g.done < n ∧ ∃ found g' x',
      (iteration lp o g (o.signal (x.record.iteration + 1))).on x = (.ok (found, g'), x') ∧
        (found = some ending ∧ y = x' ∨ found = none ∧
          (iterate lp o fuel g').on x' = (.ok ending, y)) := by
  rw [iterate_of_open (not_barred_of_iterate h hstop)] at h
  obtain ⟨exhausted, x₁, hexhausted, h⟩ := Run.exists_of_bind h
  obtain rfl : x = x₁ := congrArg Prod.snd hexhausted
  have hexhausted : o.isExhausted g.done = .ok exhausted := congrArg Prod.fst hexhausted
  rw [TrainingPlan.isExhausted, ho.limit, Datum.reaches_int] at hexhausted
  obtain rfl : decide (n ≤ g.done) = exhausted := Except.ok.inj hexhausted
  by_cases hn : n ≤ g.done
  · rw [decide_eq_true hn] at h
    cases h
    exact .inl ⟨hn, rfl, rfl⟩
  right
  refine ⟨by omega, ?_⟩
  rw [decide_eq_false hn, if_neg (by simp)] at h
  obtain ⟨overdue, x₁, hoverdue, h⟩ := Run.exists_of_bind h
  obtain rfl : x = x₁ := congrArg Prod.snd hoverdue
  split_ifs at h
  · cases h
    exact absurd rfl htime
  · cases h
    exact absurd rfl hstop
  obtain ⟨⟨found, g'⟩, x₁, hiteration, h⟩ := Run.exists_of_bind h
  refine ⟨found, g', x₁, hiteration, ?_⟩
  cases found with
  | some found =>
    cases h
    exact .inl ⟨rfl, rfl⟩
  | none => exact .inr ⟨rfl, h⟩

/-- A run that is neither overdue nor interrupted goes on to the first iteration that lets it end as
converged, or to its limit. -/
theorem iterate_course (ho : o.Spells n k ε period) {fuel : ℕ} {ending : Ending}
    (hfuel : n < fuel + g.done)
    (h : (iterate lp o fuel g).on x = (.ok ending, y)) (htime : ending ≠ .timeLimit)
    (hstop : ending ≠ .interrupted) :
    ∃ laps, Course lp o g x laps ∧ Finish lp o n k period g.done laps ending ∧
      y.record.bounds = x.record.bounds ++ laps.map Lap.bound ∧
      y.record.iteration = x.record.iteration + laps.length := by
  induction fuel generalizing g x with
  | zero =>
    cases h
    exact ⟨[], .nil g _, .at_limit (by omega), by simp, by simp⟩
  | succ fuel ih =>
    obtain ⟨hn, rfl, rfl⟩ | ⟨hn, found, g', x', hiteration, h⟩ := iterate_cases ho h htime hstop
    · exact ⟨[], .nil g _, .at_limit hn, by simp, by simp⟩
    obtain rfl | ⟨l, hl, hrecord, ⟨rfl, hends⟩ | ⟨rfl, hends, hreview⟩⟩ :=
      iteration_cases ho hiteration
    · obtain ⟨hending, -⟩ | ⟨hnone, -⟩ := h
      · exact absurd (Option.some.inj hending).symm hstop
      · cases hnone
    · obtain ⟨hending, rfl⟩ | ⟨hnone, -⟩ := h
      · obtain rfl := Option.some.inj hending
        refine ⟨[l], .last hl, .converged [] l ?_ hends (by simp), ?_, ?_⟩
        · simpa using hn
        · rw [hrecord, hl.tallied.bounds]
          rfl
        · rw [hrecord, hl.tallied.iteration]
          rfl
      · cases hnone
    · obtain ⟨hending, -⟩ | ⟨-, h⟩ := h
      · cases hending
      obtain ⟨-, -, -, hdone, -⟩ := review_spec ho hreview
      rw [hl.tallied.done] at hdone
      obtain ⟨laps, hcourse, hfinish, hbounds, hnumber⟩ := ih (by push_cast at hfuel; omega) h
      rw [hdone] at hfinish
      refine ⟨l :: laps, .next hl hreview hcourse, hfinish.cons hn hends, ?_, ?_⟩
      · rw [hbounds, hrecord, hl.tallied.bounds, List.append_assoc]
        rfl
      · rw [hnumber, hrecord, hl.tallied.iteration, List.length_cons]
        omega

end Session

/-! ### Risk-averse problems -/

namespace Evaluation

variable [Source γ α] [Inference α]

theorem run_gap (lp : Solver α) (o : EvaluationPlan α) (limit : Option ℕ) :
    Triple (fun _ : Assessment γ α => True) (run lp o limit)
      (fun _ x => ∃ gap, x.evaluation.gap = some gap ∧
        x.evaluation.gapOf x.simulation.problem = .ok gap) fun _ => True := by
  refine Triple.bind Keeps.true fun _ =>
    Triple.bind Keeps.true fun _ => Triple.bind Keeps.true fun found => ?_
  obtain ⟨paths, values⟩ := found
  refine Triple.bind Keeps.true fun _ => Triple.get_bind fun x' _ => ?_
  -- from here on nothing but the evaluation changes
  have hrecord (change : Evaluation α → Evaluation α) :
      Keeps (fun z : Assessment γ α => z.simulation.problem = x'.simulation.problem)
      (record change) :=
    Triple.modify fun _ hz => hz
  have hgap : Triple (fun z : Assessment γ α => z.simulation.problem = x'.simulation.problem) (do
      let gap ← Run.ofExcept ((← get).evaluation.gapOf x'.simulation.problem)
      record fun e => { e with gap := some gap })
      (fun _ z => ∃ gap, z.evaluation.gap = some gap ∧
      z.evaluation.gapOf z.simulation.problem = .ok gap)
      fun _ => True := by
    refine Triple.get_bind fun z hz => Triple.bind (Q := fun gap w => w = z ∧
      z.evaluation.gapOf x'.simulation.problem = .ok gap)
      (Triple.ofExcept (fun w gap hw h => ⟨hw, h⟩) fun _ _ => trivial) ?_
    intro gap
    refine Triple.modify fun w hw => ?_
    obtain ⟨rfl, hgap⟩ := hw
    exact ⟨gap, rfl, hz ▸ hgap⟩
  have hinterval : Triple (fun z : Assessment γ α => z.simulation.problem = x'.simulation.problem)
      (do
      if !o.isPlain then
        let interval ← Run.ofExcept (intervalOf values o.percentile)
        record fun e => { e with interval := some interval }
      let gap ← Run.ofExcept ((← get).evaluation.gapOf x'.simulation.problem)
      record fun e => { e with gap := some gap })
      (fun _ z => ∃ gap, z.evaluation.gap = some gap ∧
      z.evaluation.gapOf z.simulation.problem = .ok gap)
      fun _ => True := by
    by_cases hplain : (!o.isPlain) = true
    · rw [if_pos hplain]
      exact Triple.bind (Triple.ofExcept (fun _ _ hz _ => hz) fun _ _ => trivial) fun _ =>
        Triple.bind (Triple.modify fun _ hz => hz) fun _ => hgap
    · rw [if_neg hplain]
      exact hgap
  refine Triple.conseq ?_ (fun z hz => congrArg (fun w : Assessment γ α => w.simulation.problem) hz)
    (fun _ _ h => h)
    fun _ h => h
  cases paths with
  | none => exact hinterval
  | some paths =>
    exact Triple.bind (Triple.ofExcept (fun _ _ hz _ => hz) fun _ _ => trivial) fun _ =>
      Triple.bind (Triple.modify fun _ hz => hz) fun _ => hinterval

omit [Inference α] in
/-- In a risk-averse problem the gap says nothing, and neither does the interval. -/
theorem converged_of_riskAverse {e : Evaluation α} {p : Multistage α} {gap : α}
    (hrisk : p.riskAverse = true)
    (hgap : e.gap = some gap) (hgapOf : e.gapOf p = .ok gap) (tolerance : Datum α)
    [IsStrictOrderedRing α] :
    e.converged p tolerance = .ok false := by
  rw [gapOf, if_pos hrisk] at hgapOf
  obtain rfl : -1 = gap := Except.ok.inj hgapOf
  have hnegative : ¬ (0 : α) ≤ -1 := by simp
  unfold converged
  rw [hgap, hrisk]
  dsimp only
  rw [if_neg hnegative]
  rcases e.interval with _ | ⟨low, high⟩
  · rfl
  · cases e.bound <;> rfl

end Evaluation

theorem Multistage.prepare_riskAverse (r : Bool) :
    Keeps (fun P : Multistage α => P.riskAverse = r) (prepare : Run α (Multistage α) Unit) := by
  refine Keeps.iff_on.mpr fun P hP => ?_
  have hdraft : (prepare.on P).2.draft = P.draft := Keeps.iff_on.mp (prepare_draft P.draft) P rfl
  exact Eq.trans (congrArg Multistage.riskAverse hdraft :) hP

theorem Multistage.twins_riskAverse (r : Bool) (lp : Solver α) :
    Twins lp lp fun P P' => P = P' ∧ P.riskAverse = r :=
  twins_self_of_models (prepare_riskAverse r) (fun _ _ hP => hP) (fun _ _ hP => hP) lp

namespace Session

variable [Source γ α] [Inference α] {lp : Solver α} {g : Standing α} {x y : Session γ α}
  {l : Lap γ α}
  {laps : List (Lap γ α)}

theorem invariant_riskAverse (lp : Solver α) (r : Bool) :
    Invariant lp (fun x : Session γ α => x.simulation.problem.riskAverse = r) fun _ _ => True where
  improve := fun o signal =>
    (improve_keeps_of (Multistage.twins_riskAverse r lp) o signal).and_pure trivial
  keep := fun _ => keep_triple_of (fun _ hx => hx.1) (fun _ hx => hx) fun _ _ hx => hx
  evaluate := evaluate_keeps_of (Multistage.twins_riskAverse r lp).toWalkTwins
  count := fun _ _ hx => hx
  journal := fun _ _ hx => hx

section

variable [IsStrictOrderedRing α]

theorem not_convinces_of_riskAverse (hx : x.simulation.problem.riskAverse = true) :
    ¬ Convinces lp o period x := by
  rintro ⟨-, e, y, hevaluate, hconverged⟩
  have hrisk : y.simulation.problem.riskAverse = true :=
    ((evaluate_keeps_of (Multistage.twins_riskAverse true lp).toWalkTwins _ _) x hx).1 _ _ hevaluate
  obtain ⟨a, hrun, rfl, hsimulation⟩ := exists_of_evaluate hevaluate
  obtain ⟨gap, hgap, hgapOf⟩ := (Evaluation.run_gap lp _ _ _ trivial).1 _ _ hrun
  rw [hsimulation] at hgapOf
  rw [Evaluation.converged_of_riskAverse hrisk hgap hgapOf] at hconverged
  cases hconverged

theorem Course.not_convinces (h : Course lp o g x laps)
    (hx : x.simulation.problem.riskAverse = true) :
    ∀ l ∈ laps, ¬ Convinces lp o period l.session := by
  have hcount {g : Standing α} {x : Session γ α} {l : Lap γ α}
      (hx : x.simulation.problem.riskAverse = true)
      (hl : Counted lp o g x l) : l.session.simulation.problem.riskAverse = true :=
    (((invariant_riskAverse lp true).count_keeps o g _) x hx).1 _ _ hl
  induction h with
  | nil => simp
  | last hl =>
    simp only [List.mem_singleton, forall_eq]
    exact not_convinces_of_riskAverse (hcount hx hl)
  | next hl hreview hrest ih =>
    have hlap := hcount hx hl
    have hreviewed := ((review_keeps_of (invariant_riskAverse lp true).evaluate
      (fun _ _ hx => hx) o _ _ _) _ hlap).1 _ _ hreview
    exact List.forall_mem_cons.mpr ⟨not_convinces_of_riskAverse hlap, ih hreviewed⟩

end

/-! ### Whole runs -/

def outsetSeeded (o : TrainingPlan α) (seed : Datum α) : Run α (Session γ α) (Standing α) := do
  restart
  onProblem Multistage.prepare
  if !seed.isNull then
    let source : γ ← Run.ofExcept (seeded? seed)
    modify fun x => { x with simulation := { x.simulation with source } }
  outset o

theorem trainSeeded_eq_outset (lp : Solver α) (o : TrainingPlan α) (seed : Datum α) :
    (trainSeeded lp o seed : Run α (Session γ α) _) = (do
      let g ← outsetSeeded o seed
      let ending ← iterate lp o (o.iterationBound + 1) g
      conclude o ending) := by
  unfold trainSeeded outsetSeeded
  simp only [bind_assoc, train]
  refine bind_congr fun _ => bind_congr fun _ => ?_
  split_ifs
  · simp only [bind_assoc]
  · rfl

omit [Inference α] in
/-- Before the first iteration the record is as before the run, but for the crew. -/
theorem outsetSeeded_triple (o : TrainingPlan α) (seed : Datum α) (x : Session γ α) :
    Triple (· = x) (outsetSeeded o seed)
      (fun g y => g = .start y.record ∧ y.record.bounds = x.record.bounds ∧
        y.record.iteration = x.record.iteration ∧
        y.simulation.problem.riskAverse = x.simulation.problem.riskAverse) fun _ => True := by
  set I : Session γ α → Prop := fun y =>
    y.record.bounds = x.record.bounds ∧ y.record.iteration = x.record.iteration ∧
    y.simulation.problem.riskAverse = x.simulation.problem.riskAverse
  have hprepare : Keeps I (onProblem Multistage.prepare) := Keeps.iff_on.mpr fun y hy =>
    ⟨hy.1, hy.2.1, Keeps.iff_on.mp (Multistage.prepare_riskAverse _) y.simulation.problem hy.2.2⟩
  have htell (note : Note α) : Keeps I (tell note) := tell_keeps_of (fun _ _ hy => hy) note
  have hrestart : Keeps I restart := Triple.modify fun _ hy => hy
  have hsetUp : Keeps I (setUp o) := by
    refine Keeps.bind (Triple.modify fun _ hy => hy) fun _ => .bind .ofExcept fun workers => ?_
    exact Triple.modify fun _ hy => hy
  have houtset : Keeps I (outset o) := by
    refine hprepare.bind fun _ => hrestart.bind fun _ => hsetUp.bind fun _ => .get_bind fun z => ?_
    exact (htell _).bind fun _ => .ite ((htell _).bind fun _ => .pure) .pure
  have hstart : Triple I (outset o) (fun g y => g = .start y.record ∧ I y) fun _ => True :=
    (Triple.and houtset (outset_triple o)).conseq (fun _ hy => ⟨hy, trivial⟩)
      (fun _ _ hy => ⟨hy.2.1, hy.1⟩) fun _ _ => trivial
  have hI : Triple I (outsetSeeded o seed) (fun g y => g = .start y.record ∧ I y)
      fun _ => True := by
    refine Triple.bind (Triple.conseq hrestart (fun _ h => h) (fun _ _ h => h) fun _ _ => trivial)
      fun _ => ?_
    refine Triple.bind (Triple.conseq hprepare (fun _ h => h) (fun _ _ h => h) fun _ _ => trivial)
      fun _ => ?_
    split_ifs
    · refine Triple.bind (Triple.ofExcept (fun _ _ hy _ => hy) fun _ _ => trivial) fun source => ?_
      exact Triple.bind (Triple.modify fun _ hy => hy) fun _ => hstart
    · exact hstart
  exact hI.conseq (fun y hy => hy ▸ ⟨rfl, rfl, rfl⟩) (fun _ _ h => h) fun _ h => h

/-- Whether a run may end as converged after an iteration: the last `k` bounds are steady, or an
evaluation convinces. -/
def MayEnd (lp : Solver α) (o : TrainingPlan α) (k : ℤ) (ε : α) (period : Option ℤ)
    (before : Option α) (laps : List (Lap γ α)) (i : ℕ) : Prop :=
  SteadyFor ε before (laps.map Lap.bound) k i ∨ ∃ l ∈ laps[i]?, Convinces lp o period l.session

variable [IsStrictOrderedRing α]

theorem Course.ends_iff (ho : o.Spells n k ε period) (h : Course lp o g x laps)
    (hg : g.stable = 0) {i : ℕ} (hi : laps[i]? = some l) :
    Ends lp o k period l ↔ MayEnd lp o k ε period g.previous laps i := by
  unfold Ends MayEnd
  rw [h.le_stable_iff ho hg hi, hi]
  simp

/-- A run that is neither overdue nor interrupted makes iterations one after the other. It ends as
converged after the first one after which it may, if that is within the limit; otherwise it makes as
many as the limit allows. In a problem that is labelled as risk averse no evaluation plays a part.
If the label is right, this is any problem with a measure other than the plain expectation; it is
wrong only where a choice of a measure was refused after it had written some stages
(`Multistage.labelled_of_write`). -/
theorem trainSeeded_ending (ho : o.Spells n k ε period) {seed : Datum α} {ending : Ending}
    (h : (trainSeeded lp o seed).on x = (.ok ending, y)) (htime : ending ≠ .timeLimit)
    (hstop : ending ≠ .interrupted) :
    ∃ g x₀ laps, (outsetSeeded o seed).on x = (.ok g, x₀) ∧ Course lp o g x₀ laps ∧
      y.record.ending = some ending ∧ y.record.bounds = x.record.bounds ++ laps.map Lap.bound ∧
      y.record.iteration = x.record.iteration + laps.length ∧
      (∀ i l, laps[i]? = some l → l.session.record.iteration = x.record.iteration + i + 1) ∧
      (x.simulation.problem.riskAverse = true → ∀ l ∈ laps, ¬ Convinces lp o period l.session) ∧
      (x.simulation.problem.Labelled →
        (∃ choice ∈ x.simulation.problem.measures, choice.isNeutral = false) →
        ∀ l ∈ laps, ¬ Convinces lp o period l.session) ∧
      (ending = .converged ∧ (laps.length : ℤ) ≤ n ∧ (∃ i, laps.length = i + 1 ∧
          MayEnd lp o k ε period x.record.bounds.getLast? laps i ∧
          ∀ j < i, ¬ MayEnd lp o k ε period x.record.bounds.getLast? laps j) ∨
        ending = .iterationLimit ∧ (laps.length : ℤ) = max 0 n ∧
          ∀ j < laps.length, ¬ MayEnd lp o k ε period x.record.bounds.getLast? laps j) := by
  rw [trainSeeded_eq_outset] at h
  obtain ⟨g, x₀, houtset, h⟩ := Run.exists_of_bind h
  obtain ⟨ending', x₁, hiterate, h⟩ := Run.exists_of_bind h
  obtain ⟨z, hz, htwin, hending⟩ := conclude_on o ending' x₁
  obtain ⟨rfl, rfl⟩ : ending' = ending ∧ z = y := by
    rw [hz] at h
    simpa using h
  obtain ⟨rfl, hbounds, hiteration, hrisk⟩ := (outsetSeeded_triple o seed x x rfl).1 _ _ houtset
  have hfuel : n < (o.iterationBound + 1 : ℕ) + (Standing.start x₀.record).done := by
    rw [TrainingPlan.iterationBound, ho.limit]
    simp only [Standing.start]
    push_cast
    omega
  obtain ⟨laps, hcourse, hfinish, hlaps, hnumber⟩ := iterate_course ho hfuel hiterate htime hstop
  have hprevious : (Standing.start x₀.record).previous = x.record.bounds.getLast? := by
    rw [← hbounds]; rfl
  have hends {i : ℕ} {l : Lap γ α} (hi : laps[i]? = some l) :
      Ends lp o k period l ↔ MayEnd lp o k ε period x.record.bounds.getLast? laps i :=
    hprevious ▸ hcourse.ends_iff ho rfl hi
  have hrecord : z.record.bounds = x₁.record.bounds ∧ z.record.iteration = x₁.record.iteration :=
    ⟨(congrArg Record.bounds htwin.record.symm :), (congrArg Record.iteration htwin.record.symm :)⟩
  refine ⟨_, x₀, laps, houtset, hcourse,
    hending, by rw [hrecord.1, hlaps, hbounds], by rw [hrecord.2, hnumber, hiteration],
    ?_, ?_, ?_, ?_⟩
  · intro i l hi
    rw [hcourse.iteration ho hi, hiteration]
  · intro hx
    exact hcourse.not_convinces (hrisk.trans hx)
  · intro hlabelled hmeasure
    exact hcourse.not_convinces (hrisk.trans (hlabelled.riskAverse_iff.mpr hmeasure))
  · cases hfinish with
    | converged earlier l hlimit hl hbefore =>
      left
      refine ⟨rfl, ?_, earlier.length, by simp, ?_, ?_⟩
      · simpa [Standing.start] using hlimit
      · exact (hends (by simp)).mp hl
      · intro j hj hmay
        have hj' : (earlier ++ [l])[j]? = some earlier[j] := by
          simp [List.getElem?_append_left hj, hj]
        exact hbefore _ (List.getElem_mem hj) ((hends hj').mpr hmay)
    | exhausted hlimit hbefore =>
      right
      refine ⟨rfl, by simpa [Standing.start] using hlimit, ?_⟩
      intro j hj hmay
      exact hbefore _ (List.getElem_mem hj) ((hends (List.getElem?_eq_getElem hj)).mpr hmay)

end Session

/-! ### A run that ends early -/

namespace Problems

/-- A plan that ends after one steady bound, where a bound is steady if it changes by no more than
itself. -/
def hastyPlan : TrainingPlan ℚ :=
  { maxIterations := .int 5, maxStable := .int 1, maxTime := .int 3600, tolerance := .int (-1)
    stableTolerance := .real 1, evaluationPeriod := .int 2, simulations := .int (-1)
    duration := fun _ => 0 }

theorem hastyPlan_spells : hastyPlan.Spells 5 1 1 (some 2) := ⟨rfl, rfl, Datum.denotes_real 1, rfl⟩

def hastyRun : Session ℕ ℚ :=
  ((Session.trainSeeded stockOptimum hastyPlan .null).on shortageSession).2

theorem hastyRun_eq : (Session.trainSeeded stockOptimum hastyPlan .null).on shortageSession =
    (.ok .converged, hastyRun) :=
  Run.on_of_answer (by decide +kernel)

end Problems

open Problems in
theorem Session.trainSeeded_ending_hasty : hastyRun.record.bounds = [1, 3 / 2] ∧
    ∃ laps : List (Lap ℕ ℚ), laps.map Lap.bound = [1, 3 / 2] ∧
      MayEnd stockOptimum hastyPlan 1 1 (some 2) none laps 1 ∧
      ¬ MayEnd stockOptimum hastyPlan 1 1 (some 2) none laps 0 := by
  have hbounds : hastyRun.record.bounds = [1, 3 / 2] := by decide +kernel
  refine ⟨hbounds, ?_⟩
  obtain ⟨g, x₀, laps, -, -, -, hlaps, -, -, -, -, hend⟩ :=
    trainSeeded_ending hastyPlan_spells hastyRun_eq (by decide) (by decide)
  have hlaps : laps.map Lap.bound = [1, 3 / 2] := hlaps.symm.trans hbounds
  have hlength : laps.length = 2 := by rw [← List.length_map Lap.bound, hlaps]; rfl
  refine ⟨laps, hlaps, ?_⟩
  obtain ⟨-, -, i, hi, hmay, hbefore⟩ | ⟨hending, -⟩ := hend
  · obtain rfl : i = 1 := by omega
    exact ⟨hmay, hbefore 0 Nat.zero_lt_one⟩
  · cases hending

end Recourse
