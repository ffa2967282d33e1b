import Recourse.Proofs.Crew
import Recourse.Proofs.Session
import Recourse.Proofs.Twins

/-! Training can be stopped by its limit of iterations and taken up again: a run of `a + b`
iterations leaves what a run of `a` iterations and another one of `b` leave. Between the two runs
the count of stable bounds starts anew, so that it is never ahead of the one in the single run. -/

namespace Recourse

open Run (Alike Coupled Keeps Triple)

variable {γ α : Type}

class Numeral.Ordered (α : Type) [Numeral α] : Prop where
  compareInt_mono : ∀ {m n : ℤ} {x : α},
    m ≤ n → compareInt m x = some .gt ∨ compareInt m x = some .eq →
    compareInt n x = some .gt ∨ compareInt n x = some .eq

variable [Scalar α] [Numeral α]

theorem Datum.reaches_int (m n : ℤ) : (Datum.int m : Datum α).reaches (.int n) = .ok
    (decide (n ≤ m)) := by
  have horder : (Datum.int m : Datum α).order (.int n) = .ok (some (compare m n)) := rfl
  rw [reaches, horder]
  refine congrArg Except.ok ?_
  rcases lt_trichotomy m n with h | h | h
  · simp [Int.compare_eq_lt.mpr h, h]
  · simp [h]
  · simp [Int.compare_eq_gt.mpr h, h.le]

theorem Datum.reaches_real (n : ℤ) (x : α) : (Datum.int n : Datum α).reaches (.real x) =
    .ok (decide (Numeral.compareInt n x = some .gt ∨ Numeral.compareInt n x = some .eq)) := by
  have horder : (Datum.int n : Datum α).order (.real x) = .ok (Numeral.compareInt n x) := rfl
  rw [reaches, horder]
  refine congrArg Except.ok ?_
  rcases (Numeral.compareInt n x : Option Ordering) with _ | _ | _ | _ <;> rfl

theorem Datum.reaches_bool (n : ℤ) (b : Bool) : (Datum.int n : Datum α).reaches (.bool b) =
    (Datum.int n : Datum α).reaches (.int (if b then 1 else 0)) := rfl

theorem Datum.not_reaches_of_le [Numeral.Ordered α] {m n : ℤ} {d : Datum α} (hmn : m ≤ n)
    (h : (Datum.int n : Datum α).reaches d = .ok false) :
    (Datum.int m : Datum α).reaches d = .ok false := by
  cases d with
  | int k =>
    rw [reaches_int] at h ⊢
    simp only [Except.ok.injEq, decide_eq_false_iff_not] at h ⊢
    omega
  | bool b =>
    rw [reaches_bool, reaches_int] at h ⊢
    simp only [Except.ok.injEq, decide_eq_false_iff_not] at h ⊢
    omega
  | real x =>
    rw [reaches_real] at h ⊢
    simp only [Except.ok.injEq, decide_eq_false_iff_not] at h ⊢
    exact fun hm => h (Numeral.Ordered.compareInt_mono hmn hm)
  | null => cases h
  | text s => cases h
  | list xs => cases h
  | record fields => cases h

theorem Multistage.twins_prepared (lp : Solver α) :
    Twins lp lp fun P P' => P = P' ∧ P.prepared = true :=
  twins_self_of_models (Keeps.iff_on.mpr fun P hP => by rwa [prepare_on_prepared hP])
    (fun _ _ hP => hP)
    (fun _ _ hP => hP) lp

namespace TrainingPlan

def upTo (o : TrainingPlan α) (n : ℕ) : TrainingPlan α := { o with maxIterations := .int n }

/-- A plan whose limit of time is never reached. -/
def Unhurried (o : TrainingPlan α) : Prop := ∀ n, o.isOverdue (o.elapsed n) = .ok false

theorem isExhausted_upTo (o : TrainingPlan α) (n done : ℕ) :
    (o.upTo n).isExhausted done = .ok (decide (n ≤ done)) := by
  rw [isExhausted, upTo, Datum.reaches_int]
  simp only [Nat.cast_le]

end TrainingPlan

namespace Session

variable [Source γ α] [Inference α] {lp : Solver α} {o o' : TrainingPlan α} {g g' k : Standing α}
  {x x' y z : Session γ α} {a b j n n' : ℕ}

/-! ### The limit of iterations -/

/-- An iteration never says that the limit of iterations is reached. -/
theorem iteration_ending (lp : Solver α) (o : TrainingPlan α) (g : Standing α) (signal : Signal) :
    Triple (fun _ : Session γ α => True) (iteration lp o g signal)
      (fun r _ => r.1 ≠ some .iterationLimit) fun _ => True := by
  refine Triple.interruptible (Triple.bind Keeps.true fun r => ?_) fun _ _ _ => by simp
  refine Triple.bind Keeps.true fun converged => ?_
  split_ifs
  · exact Triple.pure fun _ _ => by simp
  refine Triple.bind Keeps.true fun r => Triple.pure fun _ _ => ?_
  split_ifs <;> simp

/-- Whether an interrupt ends a run before its next iteration. -/
def Barred (o : TrainingPlan α) (x : Session γ α) : Prop :=
  o.signal (x.record.iteration + 1) = .interrupt .begun

theorem iterate_of_open (h : ¬ Barred o x) (fuel : ℕ) : (iterate lp o (fuel + 1) g).on x = (do
      if ← Run.ofExcept (o.isExhausted g.done) then return .iterationLimit
      if ← Run.ofExcept (o.isOverdue g.seconds) then return .timeLimit
      if g.stopping then return .interrupted
      let (ending, g) ← iteration lp o g (o.signal (x.record.iteration + 1))
      match ending with
      | some ending => return ending
      | none => iterate lp o fuel g : Run α (Session γ α) Ending).on x := by
  rw [iterate, Run.bind_ok _ (Run.get_on x)]
  exact congrArg (fun act : Run α (Session γ α) Ending => act.on x) (if_neg h)

theorem not_barred_of_iterate {fuel : ℕ} {ending : Ending}
    (h : (iterate lp o (fuel + 1) g).on x = (.ok ending, y)) (hending : ending ≠ .interrupted) :
    ¬ Barred o x := by
  intro hbarred
  rw [Barred] at hbarred
  rw [iterate, Run.bind_ok _ (Run.get_on x)] at h
  dsimp only at h
  rw [if_pos hbarred] at h
  cases h
  exact hending rfl

theorem iterate_at_limit (h : n ≤ g.done) (hopen : ¬ Barred o x) (fuel : ℕ) :
    (iterate lp (o.upTo n) fuel g).on x = (.ok .iterationLimit, x) := by
  cases fuel with
  | zero => rfl
  | succ fuel =>
    have hexhausted : (Run.ofExcept ((o.upTo n).isExhausted g.done)).on x = (.ok true, x) := by
      rw [Run.ofExcept_on, TrainingPlan.isExhausted_upTo, decide_eq_true h]
    rw [iterate_of_open (o := o.upTo n) hopen]
    exact Run.bind_ok _ hexhausted

/-- Below the limit a run goes on, unless it is overdue, interrupted or asked to stop. -/
theorem iterate_below_limit (h : g.done < n) (hopen : ¬ Barred o x)
    (hover : o.isOverdue g.seconds = .ok false) (hstop : g.stopping = false)
    (hiteration : (iteration lp o g (o.signal (x.record.iteration + 1))).on x = (.ok (none, k), y))
    (fuel : ℕ) : (iterate lp (o.upTo n) (fuel + 1) g).on x =
    (iterate lp (o.upTo n) fuel k).on y := by
  have hexhausted : (Run.ofExcept ((o.upTo n).isExhausted g.done)).on x = (.ok false, x) := by
    rw [Run.ofExcept_on, TrainingPlan.isExhausted_upTo, decide_eq_false (by omega)]
  have hoverdue : (Run.ofExcept ((o.upTo n).isOverdue g.seconds)).on x = (.ok false, x) :=
    congrArg (·, x) hover
  rw [iterate_of_open (o := o.upTo n) hopen, Run.bind_ok _ hexhausted, if_neg (by simp),
    Run.bind_ok _ hoverdue, if_neg (by simp), hstop, if_neg (by simp)]
  exact Run.bind_ok _ hiteration

/-- A run that ends at its limit went on below it. -/
theorem iterate_below_limit_inv (h : g.done < n) {fuel : ℕ}
    (hrun : (iterate lp (o.upTo n) (fuel + 1) g).on x = (.ok .iterationLimit, x')) :
    o.isOverdue g.seconds = .ok false ∧ g.stopping = false ∧ ∃ k y,
      (iteration lp o g (o.signal (x.record.iteration + 1))).on x = (.ok (none, k), y) ∧
      (iterate lp (o.upTo n) fuel k).on y = (.ok .iterationLimit, x') := by
  have hopen : ¬ Barred o x := not_barred_of_iterate (o := o.upTo n) hrun (by decide)
  have hexhausted : (Run.ofExcept ((o.upTo n).isExhausted g.done)).on x = (.ok false, x) := by
    rw [Run.ofExcept_on, TrainingPlan.isExhausted_upTo, decide_eq_false (by omega)]
  rw [iterate_of_open (o := o.upTo n) hopen, Run.bind_ok _ hexhausted, if_neg (by simp)] at hrun
  obtain ⟨overdue, _, hover, hrun⟩ := Run.exists_of_bind hrun
  obtain rfl : x = _ := congrArg Prod.snd hover
  split_ifs at hrun with hoverdue hstop
  · cases hrun
  · cases hrun
  obtain ⟨⟨ending, k⟩, y, hiteration, hrun⟩ := Run.exists_of_bind hrun
  cases ending with
  | none =>
    obtain rfl : overdue = false := by simpa using hoverdue
    exact ⟨congrArg Prod.fst hover, by simpa using hstop, k, y, hiteration, hrun⟩
  | some ending =>
    cases hrun
    exact absurd rfl ((iteration_ending lp o g _ x trivial).1 _ _ hiteration)

/-! ### Where a run stands -/

theorem review_standing {bound : α} {good : Bool} {signal : Signal}
    (h : (review lp o bound g signal).on x = (.ok (good, k), y)) :
    k.previous = g.previous ∧ k.done = g.done := by
  have hreview :=
    review_coupled (γ := γ) (Multistage.twins_refl lp) (rfl : o.core = o.core) g g bound signal
  obtain ⟨_, _, -, hr, -⟩ := hreview.of_ok ⟨⟨rfl, rfl⟩, rfl⟩ h
  cases hr <;> exact ⟨rfl, rfl⟩

omit [Scalar α] [Numeral α] [Source γ α] [Inference α] in
theorem keep_on {bound : α} {values : List α} {signal : Signal}
    (h : (keep bound values signal).on x = (.ok (), y)) :
    y.record =
    { x.record with
      bounds := x.record.bounds ++ [bound], values := x.record.values ++ [values] } := by
  rw [keep, update, Run.bind_ok _ (Run.modify_on _ _)] at h
  obtain ⟨-, h⟩ := Run.of_breakOff h
  obtain ⟨_, z, hlast, h⟩ := Run.exists_of_bind h
  cases hlast
  obtain ⟨-, h⟩ := Run.of_breakOff h
  rw [update, Run.bind_ok _ (Run.modify_on _ _)] at h
  obtain rfl := Run.eq_of_breakOff h
  rfl

theorem count_on {bound : α} {signal : Signal}
    (h : (count lp o g signal).on x = (.ok (bound, k), y)) :
    ∃ stable values, g.isStable o.stableTolerance bound = .ok stable ∧
      k = g.counted o bound stable (signal = .stop) ∧ y.record = { x.record with
        bounds := x.record.bounds ++ [bound], values := x.record.values ++ [values]
        iteration := x.record.iteration + 1 } := by
  obtain ⟨⟨b, values⟩, x₁, himprove, h⟩ := Run.exists_of_bind h
  have hrecord : x₁.record = x.record :=
    ((improve_keeps_record (· = x.record) lp o signal) x rfl).1 _ _ himprove
  obtain ⟨_, x₂, hkeep, h⟩ := Run.exists_of_bind h
  obtain ⟨figure, x₃, hfigure, h⟩ := Run.exists_of_bind h
  obtain ⟨k₁, x₄, hadvance, h⟩ := Run.exists_of_bind h
  obtain ⟨stable, hstable, hk₁⟩ := ok_of_bind (congrArg Prod.fst hadvance)
  obtain rfl : x₂ = x₃ := congrArg Prod.snd hfigure
  obtain rfl : x₂ = x₄ := congrArg Prod.snd hadvance
  rw [update, Run.bind_ok _ (Run.modify_on _ _)] at h
  obtain ⟨-, h⟩ := Run.of_breakOff h
  rw [Run.bind_ok _ (Run.get_on _), tell, Run.bind_ok _ (Run.modify_on _ _)] at h
  obtain ⟨-, h⟩ := Run.of_breakOff h
  cases hk₁
  cases h
  have hkept : x₂.record = _ := keep_on hkeep
  refine ⟨stable, values, hstable, rfl, ?_⟩
  rw [hkept, hrecord]

/-- An iteration after which the run goes on: it was counted, its bound has not been stable for long
enough, and the review found nothing good enough. -/
theorem iteration_goes_on_iff {signal : Signal} :
    (iteration lp o g signal).on x = (.ok (none, k), y) ↔
      ∃ bound g₁ x₁, (count lp o g signal).on x = (.ok (bound, g₁), x₁) ∧
        (Datum.int g₁.stable).reaches o.maxStable = .ok false ∧
        (review lp o bound g₁ signal).on x₁ = (.ok (false, k), y) := by
  constructor
  · intro h
    obtain h | ⟨-, hnone, -⟩ := Run.of_interruptible h
    · obtain ⟨⟨bound, g₁⟩, x₁, hcount, h⟩ := Run.exists_of_bind h
      obtain ⟨converged, x₂, hconverged, h⟩ := Run.exists_of_bind h
      obtain rfl : x₁ = x₂ := congrArg Prod.snd hconverged
      cases converged with
      | true => cases h
      | false =>
        obtain ⟨⟨good, k₁⟩, x₂, hreview, h⟩ := Run.exists_of_bind h
        cases good with
        | true => cases h
        | false =>
          cases h
          exact ⟨bound, g₁, x₁, hcount, congrArg Prod.fst hconverged, hreview⟩
    · cases hnone
  · rintro ⟨bound, g₁, x₁, hcount, hconverged, hreview⟩
    have hconverged : (Run.ofExcept ((Datum.int g₁.stable).reaches o.maxStable)).on x₁ =
        (.ok false, x₁) :=
      congrArg (·, x₁) hconverged
    apply Run.interruptible_of_ok
    rw [proceed, Run.bind_ok _ hcount]
    refine (Run.bind_ok _ hconverged).trans ?_
    rw [if_neg (by simp), Run.bind_ok _ hreview]
    rfl

theorem iteration_standing {signal : Signal}
    (h : (iteration lp o g signal).on x = (.ok (none, k), y)) :
    k.previous = y.record.bounds.getLast? ∧ k.done = g.done + 1 := by
  obtain ⟨bound, g₁, x₁, hcount, -, hreview⟩ := iteration_goes_on_iff.mp h
  obtain ⟨stable, values, -, rfl, hcounted⟩ := count_on hcount
  obtain ⟨hprevious, hdone⟩ := review_standing hreview
  have hrecord : y.record = x₁.record :=
    ((review_keeps_of (I := fun z => z.record = x₁.record)
      (fun _ _ => Keeps.iff_on.mpr fun _ hz => hz)
      (fun _ _ hz => hz) o bound _ signal) x₁ rfl).1 _ _ hreview
  rw [hprevious, hdone, hrecord, hcounted]
  exact ⟨List.getLast?_concat.symm, rfl⟩

/-- The first run stands where the second one does, but it has not seen more stable bounds. -/
structure Behind (o : TrainingPlan α) (g' g : Standing α) : Prop where
  previous : g.previous = g'.previous
  stable : g'.stable ≤ g.stable
  stopping : g.stopping = false → g'.stopping = false
  clock : g'.seconds = o.elapsed g'.spans

/-- An iteration that goes on does so too where fewer bounds were stable. -/
theorem iteration_behind [Numeral.Ordered α] {signal : Signal} (ho : o.core = o'.core)
    (hxy : Session.Twin Eq x y) (hg : Behind o' g' g)
    (h : (iteration lp o g signal).on x = (.ok (none, k), x')) :
    ∃ k' y', (iteration lp o' g' signal).on y = (.ok (none, k'), y') ∧ Session.Twin Eq x' y' ∧
      Behind o' k' k := by
  have hmax : o.maxStable = o'.maxStable := (congrArg TrainingPlan.maxStable ho :)
  obtain ⟨bound, g₁, x₁, hcount, hconverged, hreview⟩ := iteration_goes_on_iff.mp h
  obtain ⟨r, y₁, hcount', hr, hxy₁⟩ :=
    (count_coupled (Multistage.twins_refl lp) ho hg.previous signal).of_ok hxy hcount
  cases hr with
  | counted _ stable stopping =>
  have hstable : (g'.counted o' bound stable stopping).stable ≤
      (g.counted o bound stable stopping).stable := by
    cases stable with
    | true => exact Nat.succ_le_succ hg.stable
    | false => exact le_rfl
  obtain ⟨⟨good', k'⟩, y', hreview', hr, hxy'⟩ :=
    (review_coupled (Multistage.twins_refl lp) ho _ (g'.counted o' bound stable stopping) bound
      signal).of_ok hxy₁ hreview
  have hcounted : Behind o' (g'.counted o' bound stable stopping)
      (g.counted o bound stable stopping) := by
    refine ⟨rfl, hstable, fun hstop => ?_, ?_⟩
    · obtain ⟨hstop, hs⟩ := Bool.or_eq_false_iff.mp hstop
      exact Bool.or_eq_false_iff.mpr ⟨hg.stopping hstop, hs⟩
    · change g'.seconds + o'.duration g'.spans = o'.elapsed (g'.spans + 1)
      rw [hg.clock]
      rfl
  have hgoes (h : good' = false) : (iteration lp o' g' signal).on y = (.ok (none, k'), y') := by
    subst h
    refine iteration_goes_on_iff.mpr ⟨bound, _, y₁, hcount', ?_, hreview'⟩
    exact Datum.not_reaches_of_le (Nat.cast_le.mpr hstable) (hmax ▸ hconverged)
  cases hr with
  | skipped => exact ⟨_, y', hgoes rfl, hxy', hcounted⟩
  | made =>
    refine ⟨_, y', hgoes rfl, hxy', hcounted.previous, hcounted.stable, hcounted.stopping, ?_⟩
    change (g'.counted o' bound stable stopping).seconds + _ = o'.elapsed (_ + 1)
    rw [hcounted.clock]
    rfl

/-! ### Two runs instead of one -/

/-- A run of `a + b` iterations passes the point where one of `a` iterations ends. -/
theorem iterate_split {fuel : ℕ} (hj : g.done + j = a) (hfuel : a + b < fuel + g.done)
    (hg : g.previous = x.record.bounds.getLast?)
    (h : (iterate lp (o.upTo (a + b)) fuel g).on x = (.ok .iterationLimit, y)) :
    ∃ k z, (iterate lp (o.upTo a) fuel g).on x = (.ok .iterationLimit, z) ∧
      (iterate lp (o.upTo (a + b)) (fuel - j) k).on z = (.ok .iterationLimit, y) ∧
      k.done = a ∧ k.previous = z.record.bounds.getLast? := by
  induction j generalizing fuel g x with
  | zero =>
    obtain ⟨fuel, rfl⟩ : ∃ n, fuel = n + 1 := ⟨fuel - 1, by omega⟩
    have hopen : ¬ Barred o x := not_barred_of_iterate (o := o.upTo (a + b)) h (by decide)
    exact ⟨g, x, iterate_at_limit (by omega) hopen _, h, by omega, hg⟩
  | succ j ih =>
    obtain ⟨fuel, rfl⟩ : ∃ n, fuel = n + 1 := ⟨fuel - 1, by omega⟩
    have hopen : ¬ Barred o x := not_barred_of_iterate (o := o.upTo (a + b)) h (by decide)
    obtain ⟨hover, hstop, k, z, hiteration, hrest⟩ := iterate_below_limit_inv (by omega) h
    obtain ⟨hprevious, hdone⟩ := iteration_standing hiteration
    obtain ⟨k', z', hfirst, hsecond, hk'⟩ := ih (by omega) (by omega) hprevious hrest
    refine ⟨k', z', ?_, by rwa [Nat.add_sub_add_right], hk'⟩
    rw [iterate_below_limit (by omega) hopen hover hstop hiteration]
    exact hfirst

/-- A run that starts behind another one, and as far from its limit, ends like it. -/
theorem iterate_behind [Numeral.Ordered α] (ho : o.core = o'.core) (hunhurried : o'.Unhurried)
    {fuel fuel' : ℕ} (hj : g.done + j = n) (hj' : g'.done + j = n') (hfuel : j < fuel)
    (hfuel' : j < fuel') (hxy : Session.Twin Eq x y) (hg : Behind o' g' g)
    (h : (iterate lp (o.upTo n) fuel g).on x = (.ok .iterationLimit, x')) :
    ∃ y', (iterate lp (o'.upTo n') fuel' g').on y = (.ok .iterationLimit, y') ∧
      Session.Twin Eq x' y' := by
  have hsignal : o'.signal = o.signal := (congrArg TrainingPlan.signal ho.symm :)
  induction j generalizing fuel fuel' g g' x y with
  | zero =>
    obtain ⟨fuel, rfl⟩ : ∃ n, fuel = n + 1 := ⟨fuel - 1, by omega⟩
    have hopen : ¬ Barred o x := not_barred_of_iterate (o := o.upTo n) h (by decide)
    have hopen' : ¬ Barred o' y := by rwa [Barred, hsignal, ← hxy.iteration]
    rw [iterate_at_limit (by omega) hopen] at h
    cases h
    exact ⟨y, iterate_at_limit (by omega) hopen' fuel', hxy⟩
  | succ j ih =>
    obtain ⟨fuel, rfl⟩ : ∃ n, fuel = n + 1 := ⟨fuel - 1, by omega⟩
    obtain ⟨fuel', rfl⟩ : ∃ n, fuel' = n + 1 := ⟨fuel' - 1, by omega⟩
    have hopen : ¬ Barred o x := not_barred_of_iterate (o := o.upTo n) h (by decide)
    have hopen' : ¬ Barred o' y := by rwa [Barred, hsignal, ← hxy.iteration]
    obtain ⟨-, hstop, k, z, hiteration, hrest⟩ := iterate_below_limit_inv (by omega) h
    rw [hxy.iteration, ← hsignal] at hiteration
    obtain ⟨k', z', hiteration', hz, hk⟩ := iteration_behind ho hxy hg hiteration
    have hdone := (iteration_standing hiteration).2
    have hdone' := (iteration_standing hiteration').2
    have hover : o'.isOverdue g'.seconds = .ok false := hg.clock ▸ hunhurried g'.spans
    rw [iterate_below_limit (by omega) hopen' hover (hg.stopping hstop) hiteration']
    exact ih (by omega) (by omega) (by omega) (by omega) hz hk hrest

/-! ### What a run finds at its start -/

structure Ready (o : TrainingPlan α) (x : Session γ α) : Prop where
  prepared : x.simulation.problem.prepared = true
  steps : x.record.steps = o.steps
  workers : Multistage.usefulWorkers o.steps o.workers = .ok x.record.workers

omit [Source γ α] [Inference α] in
theorem Ready.of_twin (hx : Ready o x) (hxy : Session.Twin Eq x y) : Ready o y where
  prepared := hxy.simulation.problem ▸ hx.prepared
  steps := (congrArg Record.steps hxy.record.symm :).trans hx.steps
  workers := hx.workers.trans (congrArg (Except.ok ·.workers) hxy.record :)

omit [Source γ α] [Inference α] in
theorem outset_triple (o : TrainingPlan α) :
    Triple (fun _ : Session γ α => True) (outset o) (fun g x => g = .start x.record ∧ Ready o x)
      fun _ => True := by
  have hprepare : Triple (fun _ : Session γ α => True) (onProblem Multistage.prepare)
      (fun _ x => x.simulation.problem.prepared = true) fun _ => True :=
    Triple.zoom_conseq (J := fun _ => True) (S := fun _ y => y.problem.prepared = true)
      (F := fun _ => True)
      (Triple.zoom_conseq Multistage.prepare_prepared (fun _ _ => trivial) (fun _ _ _ _ h => h)
      fun _ _ _ h => h)
      (fun _ _ => trivial) (fun _ _ _ _ h => h) fun _ _ _ h => h
  refine Triple.bind hprepare fun _ =>
    Triple.bind (Q := fun _ x => x.simulation.problem.prepared = true)
    (Triple.modify fun x hx => hx) fun _ => ?_
  have hsetUp : Triple (fun x : Session γ α => x.simulation.problem.prepared = true) (setUp o)
      (fun _ => Ready o)
      fun _ => True := by
    refine Triple.bind
      (Q := fun _ x => x.simulation.problem.prepared = true ∧ x.record.steps = o.steps)
      (Triple.modify fun x hx => ⟨hx, rfl⟩) fun _ => ?_
    refine Triple.bind (Triple.ofExcept (fun x workers hx hworkers => And.intro hx hworkers)
      fun _ _ => trivial)
      fun workers => ?_
    exact Triple.modify fun x hx => ⟨hx.1.1, hx.1.2, hx.2⟩
  refine Triple.bind hsetUp fun _ => Triple.get_bind fun x hx => ?_
  have htell (note : Note α) : Triple (fun y : Session γ α => y.record = x.record ∧ Ready o y)
      (tell note)
      (fun _ y => y.record = x.record ∧ Ready o y) fun _ => True :=
    Triple.modify fun y hy => ⟨hy.1, hy.2.prepared, hy.2.steps, hy.2.workers⟩
  have hlast : Triple (fun y : Session γ α => y.record = x.record ∧ Ready o y)
      (pure (Standing.start x.record) : Run α (Session γ α) _)
      (fun g y => g = .start y.record ∧ Ready o y) fun _ => True :=
    Triple.pure fun y hy => ⟨by rw [hy.1], hy.2⟩
  refine Triple.conseq (Triple.bind (htell _) fun _ => ?_) (fun y hy => ⟨by rw [hy], hy ▸ hx⟩)
    (fun _ _ h => h) fun _ h => h
  split_ifs
  · exact Triple.bind (htell _) fun _ => hlast
  · exact hlast

omit [Source γ α] [Inference α] in
theorem outset_ready (hx : Ready o x) :
    ∃ y, (outset o).on x = (.ok (.start x.record), y) ∧ Session.Twin Eq x y := by
  have hprepare : (onProblem Multistage.prepare).on x = (.ok (), x) := congrArg
    (fun r : Except (Fault α) Unit × Multistage α =>
    (r.1, { x with simulation := { x.simulation with problem := r.2 } }))
    (Multistage.prepare_on_prepared hx.prepared)
  have hworkers (z : Session γ α) :
      (Run.ofExcept (Multistage.usefulWorkers o.steps o.workers)).on z =
      (.ok x.record.workers, z) := congrArg (·, z) hx.workers
  have hsetUp (z : Session γ α) : (setUp o).on z =
      (.ok (),
      { z with record := { z.record with steps := o.steps, workers := x.record.workers } }) := by
    rw [setUp, update, Run.bind_ok _ (Run.modify_on _ _), Run.bind_ok _ (hworkers _)]
    rfl
  have hrecord : ({ x.record with steps := o.steps, workers := x.record.workers } : Record α).open =
      x.record.open := by
    rw [← hx.steps]
  rw [outset, Run.bind_ok _ hprepare, restart, Run.bind_ok _ (Run.modify_on _ _),
    Run.bind_ok _ (hsetUp _),
    Run.bind_ok _ (Run.get_on _)]
  dsimp only
  by_cases h : o.hasEvaluations = true
  · rw [if_pos h]
    exact ⟨_, rfl, ⟨rfl, rfl⟩, hrecord.symm⟩
  · rw [if_neg h]
    exact ⟨_, rfl, ⟨rfl, rfl⟩, hrecord.symm⟩

theorem iterate_ready (lp : Solver α) (o o' : TrainingPlan α) (fuel : ℕ) (g : Standing α) :
    Keeps (Ready (γ := γ) o) (iterate lp o' fuel g) := by
  have htwins := Multistage.twins_prepared lp
  have hkeeps {β : Type} {act : Run α (Session γ α) β}
      (hprepared : Keeps (fun x : Session γ α => x.simulation.problem.prepared = true) act)
      (hrecord : ∀ r, Keeps (fun x : Session γ α => x.record = r) act) :
      Keeps (Ready (γ := γ) o) act := by
    refine Keeps.iff_on.mpr fun x hx => ?_
    have hr : (act.on x).2.record = x.record := Keeps.iff_on.mp (hrecord x.record) x rfl
    exact ⟨Keeps.iff_on.mp hprepared x hx.prepared, hr ▸ hx.steps, hr ▸ hx.workers⟩
  have hinvariant : Invariant lp (Ready (γ := γ) o) fun _ _ => True :=
    { improve := fun o signal => (hkeeps (improve_keeps_of htwins o signal) fun r =>
        improve_keeps_record (· = r) lp o signal).and_pure trivial
      keep := fun _ => keep_triple_of (fun _ hx => ⟨hx.1.prepared, hx.1.steps, hx.1.workers⟩)
        (fun _ hx => ⟨hx.prepared, hx.steps, hx.workers⟩) fun _ _ hx =>
        ⟨hx.prepared, hx.steps, hx.workers⟩
      evaluate := fun o limit => hkeeps (evaluate_keeps_of htwins.toWalkTwins o limit) fun _ =>
        Keeps.iff_on.mpr fun _ hx => hx
      count := fun _ _ hx => ⟨hx.prepared, hx.steps, hx.workers⟩
      journal := fun _ _ hx => ⟨hx.prepared, hx.steps, hx.workers⟩ }
  exact hinvariant.iterate_keeps o' fuel g

omit [Scalar α] [Numeral α] [Source γ α] [Inference α] in
theorem conclude_on (o : TrainingPlan α) (ending : Ending) (x : Session γ α) :
    ∃ y, (conclude o ending).on x = (.ok ending, y) ∧ Session.Twin Eq x y ∧
      y.record.ending = some ending := by
  unfold conclude
  by_cases h : o.hasEvaluations = true
  · rw [if_pos h]
    exact ⟨_, rfl, ⟨⟨rfl, rfl⟩, rfl⟩, rfl⟩
  · rw [if_neg h]
    exact ⟨_, rfl, ⟨⟨rfl, rfl⟩, rfl⟩, rfl⟩

/-- A run that ends at its limit: it starts, it iterates and it ends. -/
theorem train_upTo_iff : (train lp (o.upTo n)).on x = (.ok .iterationLimit, y) ↔
    ∃ g x₀ x₁, (outset o).on x = (.ok g, x₀) ∧
      (iterate lp (o.upTo n) (n + 1) g).on x₀ = (.ok .iterationLimit, x₁) ∧
      (conclude (o.upTo n) .iterationLimit).on x₁ = (.ok .iterationLimit, y) := by
  constructor
  · intro h
    obtain ⟨g, x₀, houtset, h⟩ := Run.exists_of_bind h
    obtain ⟨ending, x₁, hiterate, h⟩ := Run.exists_of_bind h
    obtain ⟨z, hz, -⟩ := conclude_on (o.upTo n) ending x₁
    obtain ⟨rfl, rfl⟩ : Ending.iterationLimit = ending ∧ y = z := by
      rw [hz] at h
      simpa [eq_comm] using h
    exact ⟨g, x₀, x₁, houtset, hiterate, hz⟩
  · rintro ⟨g, x₀, x₁, houtset, hiterate, hconclude⟩
    exact (Run.bind_ok _ houtset).trans ((Run.bind_ok _ hiterate).trans hconclude)

theorem train_behind [Numeral.Ordered α] (hunhurried : o'.Unhurried) (ho : o.core = o'.core)
    {x₀ x₁ y₀ : Session γ α}
    {fuel : ℕ} (hfuel : n' < fuel) (hn : g.done + n' = n) (hdone : g'.done = 0)
    (hg : Behind o' g' g)
    (hiterate : (iterate lp (o.upTo n) fuel g).on x₀ = (.ok .iterationLimit, x₁))
    (houtset : (outset o').on y = (.ok g', y₀)) (hxy : Session.Twin Eq x₀ y₀) :
    ∃ w, (train lp (o'.upTo n')).on y = (.ok .iterationLimit, w) ∧ Session.Twin Eq x₁ w ∧
      w.record.ending = some .iterationLimit := by
  obtain ⟨y₁, hiterate', hxy₁⟩ := iterate_behind ho hunhurried hn
    (by rw [hdone, Nat.zero_add]) hfuel (Nat.lt_succ_self n') hxy hg hiterate
  obtain ⟨w, hw, hyw, hending⟩ := conclude_on (o'.upTo n') .iterationLimit y₁
  exact ⟨w, train_upTo_iff.mpr ⟨g', y₀, y₁, houtset, hiterate', hw⟩, hxy₁.trans hyw, hending⟩

/-- A run of `a + b` iterations that ends at its limit, beside a run of `a` iterations and another
one of `b` that goes on where the first one ended: all of them end at their limits, and they leave
the same problem, the same source and the same record. -/
theorem train_add [Numeral.Ordered α] {first second : ℕ → α}
    (hfirst : TrainingPlan.Unhurried { o with duration := first })
    (hsecond : TrainingPlan.Unhurried { o with duration := second })
    (h : (train lp { o with maxIterations := .int (a + b : ℕ) }).on x = (.ok .iterationLimit, y)) :
    ∃ z w, (train lp { o with maxIterations := .int a, duration := first }).on x =
      (.ok .iterationLimit, z) ∧
      (train lp { o with maxIterations := .int b, duration := second }).on z =
      (.ok .iterationLimit, w) ∧
      w.simulation = y.simulation ∧ w.record = y.record := by
  obtain ⟨g, x₀, x₁, houtset, hiterate, hconclude⟩ := train_upTo_iff.mp h
  obtain ⟨rfl, hready⟩ := (outset_triple o x trivial).1 _ _ houtset
  obtain ⟨k, z₀, hbefore, hafter, hdone, hprevious⟩ :=
    iterate_split (Nat.zero_add a) (by simp [Standing.start]) rfl hiterate
  -- the first run, along the first part of the single one
  obtain ⟨_, y₀, houtset₁, rfl, hy₀⟩ :=
    (outset_coupled (Multistage.twins_refl lp)
      (rfl : o.core = TrainingPlan.core { o with duration := first })).of_ok
      ⟨⟨rfl, rfl⟩, rfl⟩ houtset
  obtain ⟨z, hz, hz₀, -⟩ := train_behind (o := o) hfirst rfl (by omega) (Nat.zero_add a) rfl
    ⟨rfl, le_rfl, fun h => h, rfl⟩ hbefore houtset₁ hy₀
  -- the second run, along the rest
  have hready₀ : Ready o z₀ := ((iterate_ready lp o _ _ _) x₀ hready).1 _ _ hbefore
  have hready₁ : Ready { o with duration := second } z :=
    ⟨(hready₀.of_twin hz₀).prepared, (hready₀.of_twin hz₀).steps, (hready₀.of_twin hz₀).workers⟩
  obtain ⟨w₀, houtset₂, hw₀⟩ := outset_ready hready₁
  have hbounds : z₀.record.bounds = z.record.bounds := (congrArg Record.bounds hz₀.record :)
  have hleft : k.done + b = a + b := by rw [hdone]
  have hfuel : b < a + b + 1 - a := by omega
  obtain ⟨w, hw, hxw, hending⟩ := train_behind (o := o) hsecond rfl hfuel hleft rfl
    ⟨by rw [hprevious, hbounds]; rfl, Nat.zero_le _, fun _ => rfl, rfl⟩ hafter houtset₂
    (hz₀.trans hw₀)
  obtain ⟨y', hy', hxy, hending'⟩ := conclude_on (o.upTo (a + b)) .iterationLimit x₁
  obtain rfl : y' = y := by
    rw [hconclude] at hy'
    exact (congrArg Prod.snd hy').symm
  exact ⟨z, w, hz, hw, (hxw.symm.trans hxy).eq (hending.trans hending'.symm)⟩

end Session

/-! ### Two iterations, at once and one by one -/

instance : Numeral.Ordered ℚ where
  compareInt_mono {m n x} hmn h := by
    have hx : x ≤ m := by
      by_contra hx
      simp [Numeral.compareInt, not_le.mp hx] at h
    have hn : ¬ (n : ℚ) < x := not_lt.mpr (hx.trans (by exact_mod_cast hmn))
    by_cases hxn : x < n <;> simp [Numeral.compareInt, hn, hxn]

namespace Problems

/-- The optima of the programs that come up when the stock is chosen with no cut or with one,
too. -/
def stockOptimum : Solver ℚ := fun P =>
  match P.rows with
  | [] => .optimal { point := [0, 0, 0], value := 0, duals := [] }
  | [_] => .optimal { point := [2, 0, 0], value := 1, duals := [1 / 2] }
  | _ => shortageOptimum P

def shortagePlan : TrainingPlan ℚ :=
  { maxTime := .int 3600, tolerance := .int (-1), stableTolerance := .int 0,
    evaluationPeriod := .int 1
    simulations := .int (-1), duration := fun _ => 0 }

theorem shortagePlan_unhurried : shortagePlan.Unhurried := by
  have helapsed (n : ℕ) : shortagePlan.elapsed n = 0 := by
    induction n with
    | zero => rfl
    | succ n ih =>
      rw [TrainingPlan.elapsed, ih]
      exact add_zero (0 : ℚ)
  intro n
  rw [helapsed]
  have horder : (Datum.real (0 : ℚ)).order (.int 3600) = .ok (some .lt) :=
    congrArg Except.ok (by decide +kernel)
  rw [TrainingPlan.isOverdue, Datum.reaches, shortagePlan, horder]
  rfl

def shortageSession : Session ℕ ℚ := Session.new shortage 0

def shortageTwice : Session ℕ ℚ :=
  ((Session.train stockOptimum { shortagePlan with maxIterations := .int (1 + 1 : ℕ) }).on
    shortageSession).2

theorem shortageTwice_eq :
    (Session.train stockOptimum { shortagePlan with maxIterations := .int (1 + 1 : ℕ) }).on
    shortageSession = (.ok .iterationLimit, shortageTwice) := Run.on_of_answer (by decide +kernel)

end Problems

open Problems in
theorem Session.train_add_shortage : shortageTwice.record.bounds = [1, 3 / 2] ∧
    ∃ z w, (train stockOptimum
      { shortagePlan with maxIterations := .int (1 : ℕ), duration := fun _ => 0 }).on
        shortageSession = (.ok .iterationLimit, z) ∧
      (train stockOptimum
        { shortagePlan with maxIterations := .int (1 : ℕ), duration := fun _ => 0 }).on z =
        (.ok .iterationLimit, w) ∧
      w.simulation = shortageTwice.simulation ∧ w.record = shortageTwice.record :=
  ⟨by decide +kernel, train_add shortagePlan_unhurried shortagePlan_unhurried shortageTwice_eq⟩

end Recourse
