import Recourse.Proofs.Multistage.Jobs
import Recourse.Proofs.Multistage.Tally
import Recourse.Proofs.Workers

/-! The passes that a driver has done. In each iteration one backward pass is made for each
trajectory, by workers whose steps alternate in any way; a pass may fail where it solves a model,
and others are then not begun. No cut is lost on the way and none is added twice. -/

namespace Recourse

open Run (Keeps)

variable {γ α : Type}

/-! ### Passes -/

namespace Worker

def along (n : ℕ) (x : Trajectory α) : Worker α :=
  { states := x.map Visit.state, noises := x.map fun v => some v.noise, phase := .ahead n }

def passed (w : Worker α) (t k : ℕ) : Bool :=
  match w.phase with
  | .ahead n => decide (n ≤ t)
  | .refining s _ _ _ targets _ => decide (s < t ∨ s = t ∧ k ∉ targets)

/-- A worker that has still all reachable Markov states of a stage to refine, as long as it solves
models for them. -/
def Placed (P : Multistage α) (w : Worker α) : Prop :=
  match w.phase with
  | .ahead n => n ≤ P.horizon - 1
  | .refining s _ _ models targets _ => s + 1 < P.horizon ∧ targets.Nodup ∧
    (∀ j ∈ targets, j ∈ P.reachableStates s) ∧
      (models ≠ [] → targets = P.reachableStates s)

variable {P P' : Multistage α} {w w' : Worker α}

theorem Placed.of_frame (h : w.Placed P) (hP : P'.frame = P.frame) : w.Placed P' := by
  unfold Placed at h ⊢
  simpa only [Multistage.horizon_of_frame hP, Multistage.reachableStates_of_frame hP] using h

theorem passed_of_all {s t k : ℕ} {targets : List ℕ} (hall : targets = P.reachableStates s)
    (hk : k ∈ P.reachableStates t) :
    decide (s < t ∨ s = t ∧ k ∉ targets) = decide (s + 1 ≤ t) := by
  refine decide_eq_decide.mpr ⟨?_, fun hlt => .inl hlt⟩
  rintro (hlt | ⟨rfl, hnot⟩)
  · exact hlt
  · exact absurd hk (hall ▸ hnot)

variable [Scalar α] [Numeral α] {lp : Solver α}

/-- What a step of a worker does to the pools: nothing, or it adds a cut at a place that the worker
has not passed. -/
inductive Moves (P : Multistage α) (w w' : Worker α) (P' : Multistage α) : Prop
  | on (hP : P.SamePools P') (hpassed : ∀ t k,
    k ∈ P.reachableStates t → w'.passed t k = w.passed t k)
  | adds (s j : ℕ) (hP : P.Arrived s j P') (hbefore : w.passed s j = false)
    (hafter : w'.passed s j = true)
    (hpassed : ∀ t k, ¬ (t = s ∧ k = j) → w'.passed t k = w.passed t k)

theorem moves_of_step (hw : w.Placed P) (h : (w.step lp).on P = (.ok w', P')) :
    w'.Placed P ∧ Moves P w w' P' := by
  obtain ⟨states, noises, phase⟩ := w
  cases phase with
  | ahead n =>
    cases n with
    | zero =>
      cases h
      exact ⟨hw, .on (.refl P) fun _ _ _ => rfl⟩
    | succ s =>
      obtain ⟨state, Q, hstate, h⟩ := Run.exists_of_bind h
      obtain rfl : P = Q := congrArg Prod.snd hstate
      obtain ⟨noise, Q, hnoise, h⟩ := Run.exists_of_bind h
      obtain rfl : P = Q := congrArg Prod.snd hnoise
      cases h
      have hs : s + 1 ≤ P.horizon - 1 := hw
      exact ⟨⟨by omega, Multistage.nodup_reachableStates s, fun _ hj => hj, fun _ => rfl⟩,
        .on (.refl P) fun t k hk => passed_of_all rfl hk⟩
  | refining s state noise models targets found =>
    obtain ⟨hs, hnodup, htargets, hall⟩ := hw
    cases models with
    | cons k models =>
      obtain ⟨o, Q, ho, h⟩ := Run.exists_of_bind h
      cases h
      have hsame := (Multistage.outcomes_samePools lp (s + 1) k state noise P (.refl P)).1 o P' ho
      exact ⟨⟨hs, hnodup, htargets, fun _ => hall (List.cons_ne_nil _ _)⟩,
        .on hsame fun _ _ _ => rfl⟩
    | nil =>
      cases targets with
      | nil =>
        cases h
        refine ⟨by change s ≤ P.horizon - 1; omega,
          .on (.refl P) fun t k _ => decide_eq_decide.mpr ?_⟩
        simp [Nat.le_iff_lt_or_eq]
      | cons j targets =>
        obtain ⟨_, Q, hrefine, h⟩ := Run.exists_of_bind h
        cases h
        obtain ⟨hnew, hnodup⟩ := List.nodup_cons.mp hnodup
        refine ⟨⟨hs, hnodup, fun i hi => htargets i (List.mem_cons_of_mem j hi), fun hne =>
          absurd rfl hne⟩, ?_⟩
        refine .adds s j (Multistage.arrived_of_refineAt hrefine) (decide_eq_false ?_)
          (decide_eq_true (.inr ⟨rfl, hnew⟩)) ?_
        · simp
        · intro t k hne
          refine decide_eq_decide.mpr (or_congr_right (and_congr_right fun hst => not_congr ?_))
          have hk : k ≠ j := fun hk => hne ⟨hst.symm, hk⟩
          exact (List.mem_cons.trans (or_iff_right hk)).symm

/-- A pass that fails for want of a solution stops between two stages. -/
theorem stage_of_loss {e : Fault α} (hw : w.Placed P) (h : (w.step lp).on P = (.error e, P'))
    (he : e.OfWork) :
    P.SamePools P' ∧ ∃ s,
    0 < s ∧ ∀ t k, k ∈ P.reachableStates t → w.passed t k = decide (s ≤ t) := by
  obtain ⟨states, noises, phase⟩ := w
  cases phase with
  | ahead n =>
    cases n with
    | zero => cases h
    | succ s =>
      have hP : P = P' := by
        rcases Run.error_of_bind h with h | ⟨state, Q, hstate, h⟩
        · exact congrArg Prod.snd h
        obtain rfl : P = Q := congrArg Prod.snd hstate
        rcases Run.error_of_bind h with h | ⟨noise, Q, hnoise, h⟩
        · exact congrArg Prod.snd h
        · cases h
      exact ⟨hP ▸ .refl P, s + 1, Nat.succ_pos s, fun _ _ _ => rfl⟩
  | refining s state noise models targets found =>
    obtain ⟨-, -, -, hall⟩ := hw
    cases models with
    | cons i models =>
      rcases Run.error_of_bind h with h | ⟨o, Q, -, h⟩
      · exact ⟨(Multistage.outcomes_samePools lp (s + 1) i state noise P (.refl P)).2 e P' h, s + 1,
          Nat.succ_pos s,
          fun t k hk => passed_of_all (hall (List.cons_ne_nil _ _)) hk⟩
      · cases h
    | nil =>
      cases targets with
      | nil => cases h
      | cons j targets =>
        rcases Run.error_of_bind h with h | ⟨_, Q, -, h⟩
        · exact absurd he (Multistage.refineAt_avoids h)
        · cases h

end Worker

/-! ### The driver -/

/-- A problem with workers in backward passes. It is counted how many trajectories were asked for
and how many passes have run to their end, and it is known whether something has failed. -/
structure Driver (α : Type) where
  problem : Multistage α
  workers : List (Worker α)
  asked : ℕ
  finished : ℕ
  failed : Bool

namespace Driver

def new (P : Multistage α) : Driver α :=
  { problem := P, workers := [], asked := 0, finished := 0, failed := false }

section

variable [Scalar α] [Numeral α] [Inference α]

/-- A step of training. The trajectories of an iteration are walked, as many as its plan asks for,
and there is a worker for each of them. A worker takes a step, or it fails where it solves and
leaves; one that has not begun may be sent away then; one that has come to its end leaves. At any
time the bound may be computed or the policy evaluated, and something else may fail. Each step may
have a solver and a source of its own. -/
inductive Step (γ : Type) [Source γ α] : Driver α → Driver α → Prop
  | hire {lp : Solver α} {o : TrainingPlan α} {seed : ℕ} {w : Datum α} {n : ℤ}
    {walks : List (Trajectory α)}
    {P : Multistage α} (x : Driver α) (hidle : x.workers = []) (hn : o.steps.int? = some n)
    (hw : Multistage.usefulWorkers o.steps o.workers = .ok w)
    (hwalks : (Multistage.walkJobs lp (γ := γ) (fun _ => Guide.random) seed o.steps w).on
      x.problem = (.ok walks, P)) :
    Step γ x
      { x with
        problem := P, workers := walks.map (Worker.along (P.horizon - 1))
        asked := x.asked + n.toNat }
  | stumble {lp : Solver α} {seed : ℕ} {jobs w : Datum α} {limit : Option ℕ} {e : Fault α}
    {P : Multistage α}
    (x : Driver α)
      (hwalks : (Multistage.walkJobs lp (γ := γ) (fun _ => Guide.random) seed jobs w limit).on
      x.problem = (.error e, P)) :
    Step γ x { x with problem := P, failed := true }
  | work {lp : Solver α} (before : List (Worker α)) {after : List (Worker α)} {w w' : Worker α}
    {P : Multistage α}
    (x : Driver α) (hworkers : x.workers = before ++ w :: after)
      (hstep : (w.step lp).on x.problem = (.ok w', P)) :
    Step γ x { x with problem := P, workers := before ++ w' :: after }
  | lose {lp : Solver α} (before : List (Worker α)) {after : List (Worker α)} {w : Worker α}
    {e : Fault α}
    {P : Multistage α} (x : Driver α) (hworkers : x.workers = before ++ w :: after)
    (hstep : (w.step lp).on x.problem = (.error e, P)) (he : e.OfWork) :
    Step γ x { x with problem := P, workers := before ++ after, failed := true }
  | cancel (before : List (Worker α)) {after : List (Worker α)} {v : Trajectory α} (x : Driver α)
    (hworkers : x.workers = before ++ Worker.along (x.problem.horizon - 1) v :: after) :
    Step γ x { x with workers := before ++ after, failed := true }
  | finish (before : List (Worker α)) {after : List (Worker α)} {w : Worker α} (x : Driver α)
    (hworkers : x.workers = before ++ w :: after) (hend : w.phase = .ahead 0) :
    Step γ x { x with workers := before ++ after, finished := x.finished + 1 }
  | bound (lp : Solver α) (x : Driver α) :
    Step γ x { x with problem := ((Multistage.computeBound lp).on x.problem).2 }
  | evaluate (lp : Solver α) (o : EvaluationPlan α) (limit : Option ℕ) (y : Session γ α)
    (x : Driver α)
    (hy : y.simulation.problem = x.problem) :
    Step γ x { x with problem := ((Session.evaluate lp o limit).on y).2.simulation.problem }
  | keep (b : Option α) (x : Driver α) :
    Step γ x { x with problem := { x.problem with lastBound := b } }
  | fail (x : Driver α) : Step γ x { x with failed := true }

end

/-! ### What is counted -/

/-- How many cuts have arrived at a place when some passes have run to their end, some have stopped
at the given stages and the others are at work. -/
def arrivals (finished : ℕ) (stopped : List ℕ) (workers : List (Worker α)) (t k : ℕ) : ℕ :=
  finished + stopped.countP (fun s => decide (s ≤ t)) + workers.countP fun w => w.passed t k

/-- A driver whose passes have all left their cuts: those at work as far as they have come, those
that have stopped behind the stages where they have. -/
structure Counted (P₀ : Multistage α) (stopped : List ℕ) (x : Driver α) : Prop where
  frame : x.problem.frame = P₀.frame
  placed : ∀ w ∈ x.workers, w.Placed P₀
  begun : ∀ s ∈ stopped, 0 < s
  whole : x.failed = false → stopped = []
  asked : x.asked = x.finished + x.workers.length + stopped.length
  tally : x.problem.Tally (arrivals x.finished stopped x.workers)

/-- How many cuts have arrived at each stage when no pass is at work. At the first stage it is the
number of passes that have run to their end, and as long as nothing has failed, it is the number of
trajectories everywhere. -/
structure Balance (P₀ : Multistage α) (x : Driver α) (count : ℕ → ℕ) : Prop where
  pools : ∀ t k, t + 1 < P₀.horizon → k ∈ P₀.reachableStates t →
    ∃ pool, x.problem.poolAt t k = some pool ∧ pool.Counts (count t)
  monotone : Monotone count
  first : count 0 = x.finished
  all : x.failed = false → ∀ t, count t = x.asked

variable {P₀ P : Multistage α} {stopped : List ℕ} {x y : Driver α}

theorem counted_new (h : P₀.Tally fun _ _ => 0) : Counted P₀ [] (new P₀) where
  frame := rfl
  placed := fun _ hw => nomatch hw
  begun := fun _ hs => nomatch hs
  whole := fun _ => rfl
  asked := rfl
  tally := h

theorem Counted.of_samePools (h : Counted P₀ stopped x) (hP : x.problem.SamePools P) (failed : Bool)
    (hfailed : failed = false → x.failed = false) :
    Counted P₀ stopped { x with problem := P, failed } where
  frame := hP.frame.trans h.frame
  placed := h.placed
  begun := h.begun
  whole := fun hf => h.whole (hfailed hf)
  asked := h.asked
  tally := h.tally.of_samePools hP

/-- A worker counts for itself. -/
theorem arrivals_split (finished : ℕ) (stopped : List ℕ) (before after : List (Worker α))
    (w : Worker α) (t k : ℕ) :
    arrivals finished stopped (before ++ w :: after) t k =
      arrivals finished stopped (before ++ after) t k + (w.passed t k).toNat := by
  simp only [arrivals, List.countP_append, List.countP_cons]
  cases w.passed t k
  · simp
  · simp only [Bool.toNat_true, if_true]
    omega

theorem Counted.hire (h : Counted P₀ stopped x) (hidle : x.workers = [])
    (hP : x.problem.SamePools P) (walks : List (Trajectory α)) :
    Counted P₀ stopped { x with
      problem := P, workers := walks.map (Worker.along (P.horizon - 1))
      asked := x.asked + walks.length } where
  frame := hP.frame.trans h.frame
  placed := by
    intro w hw
    obtain ⟨v, -, rfl⟩ := List.mem_map.mp hw
    exact (Multistage.horizon_of_frame (hP.frame.trans h.frame) ▸ le_rfl : P.horizon - 1 ≤
      P₀.horizon - 1)
  begun := h.begun
  whole := h.whole
  asked := by
    have hasked := h.asked
    rw [hidle] at hasked
    simp only [List.length_map, List.length_nil] at hasked ⊢
    omega
  tally := by
    refine (h.tally.of_samePools hP).congr fun t k ht _ => ?_
    have hnone : (walks.map (Worker.along (P.horizon - 1))).countP (fun w => w.passed t k) = 0 := by
      refine List.countP_eq_zero.mpr fun w hw => ?_
      obtain ⟨v, -, rfl⟩ := List.mem_map.mp hw
      have hahead : ¬ P.horizon - 1 ≤ t := by omega
      simp [Worker.passed, Worker.along, hahead]
    rw [arrivals, arrivals, hidle, hnone]
    rfl

/-- A worker leaves before its end. It has passed a stage exactly if that does not come before the
one where it stops. -/
theorem Counted.leave {before after : List (Worker α)} {w : Worker α} {s : ℕ}
    (h : Counted P₀ stopped x) (hworkers : x.workers = before ++ w :: after)
    (hP : x.problem.SamePools P) (hs : 0 < s)
    (hpassed : ∀ t k, t + 1 < x.problem.horizon → k ∈ x.problem.reachableStates t →
      w.passed t k = decide (s ≤ t)) :
    Counted P₀ (s :: stopped)
      { x with problem := P, workers := before ++ after, failed := true } where
  frame := hP.frame.trans h.frame
  placed := fun v hv => h.placed v (by
    rw [hworkers]
    exact List.Sublist.subset ((List.Sublist.refl before).append
      (List.sublist_cons_self w after)) hv)
  begun := fun i hi => (List.mem_cons.mp hi).elim (fun hi => hi ▸ hs) (h.begun i)
  whole := nofun
  asked := by
    have hasked := h.asked
    rw [hworkers] at hasked
    simp only [List.length_append, List.length_cons] at hasked ⊢
    omega
  tally := by
    refine (h.tally.of_samePools hP).congr fun t k ht hk => ?_
    rw [Multistage.horizon_of_frame hP.frame] at ht
    rw [Multistage.reachableStates_of_frame hP.frame] at hk
    rw [hworkers, arrivals_split, hpassed t k ht hk, arrivals, arrivals, List.countP_cons]
    by_cases hst : s ≤ t
    · simp only [hst, decide_true, if_true, Bool.toNat_true]
      omega
    · simp [hst]

theorem Counted.finish {before after : List (Worker α)} {w : Worker α} (h : Counted P₀ stopped x)
    (hworkers : x.workers = before ++ w :: after) (hend : w.phase = .ahead 0) :
    Counted P₀ stopped { x with workers := before ++ after, finished := x.finished + 1 } where
  frame := h.frame
  placed := fun v hv => h.placed v (by
    rw [hworkers]
    exact List.Sublist.subset ((List.Sublist.refl before).append
      (List.sublist_cons_self _ after)) hv)
  begun := h.begun
  whole := h.whole
  asked := by
    have hasked := h.asked
    rw [hworkers] at hasked
    simp only [List.length_append, List.length_cons] at hasked ⊢
    omega
  tally := by
    refine h.tally.congr fun t k _ _ => ?_
    have hpassed : w.passed t k = true := by
      unfold Worker.passed
      rw [hend]
      exact decide_eq_true (Nat.zero_le t)
    change arrivals (x.finished + 1) stopped (before ++ after) t k = _
    rw [hworkers, arrivals_split, hpassed, arrivals, arrivals, Bool.toNat_true]
    omega

variable [Scalar α] [Numeral α]

theorem Counted.work {lp : Solver α} {before after : List (Worker α)} {w w' : Worker α}
    (h : Counted P₀ stopped x) (hworkers : x.workers = before ++ w :: after)
    (hstep : (w.step lp).on x.problem = (.ok w', P)) :
    Counted P₀ stopped { x with problem := P, workers := before ++ w' :: after } := by
  have hw : w.Placed x.problem := (h.placed w (by simp [hworkers])).of_frame h.frame
  obtain ⟨hplaced, hmoves⟩ := Worker.moves_of_step hw hstep
  have hframe : P.frame = x.problem.frame := by
    cases hmoves with
    | on hP _ => exact hP.frame
    | adds s j hP _ _ _ => exact hP.frame
  have harrivals (t k : ℕ) : arrivals x.finished stopped
      (before ++ w' :: after) t k + (w.passed t k).toNat =
      arrivals x.finished stopped x.workers t k + (w'.passed t k).toNat := by
    rw [hworkers, arrivals_split, arrivals_split, Nat.add_right_comm]
  refine ⟨hframe.trans h.frame, fun v hv => ?_, h.begun, h.whole, ?_, ?_⟩
  · rcases List.mem_append.mp hv with hv | hv
    · exact h.placed v (by simp [hworkers, hv])
    rcases List.mem_cons.mp hv with rfl | hv
    · exact hplaced.of_frame h.frame.symm
    · exact h.placed v (by simp [hworkers, hv])
  · have hasked := h.asked
    rw [hworkers] at hasked
    simpa using hasked
  · cases hmoves with
    | on hP hpassed =>
      refine (h.tally.of_samePools hP).congr fun t k _ hk => ?_
      have hcount := harrivals t k
      rw [Multistage.reachableStates_of_frame hP.frame] at hk
      rw [hpassed t k hk] at hcount
      exact Nat.add_right_cancel hcount
    | adds s j hP hbefore hafter hpassed =>
      refine h.tally.arrived hP ?_ fun t k _ hne => ?_
      · have hcount := harrivals s j
        rwa [hbefore, hafter] at hcount
      · have hcount := harrivals t k
        rw [hpassed t k hne] at hcount
        exact Nat.add_right_cancel hcount

theorem length_of_walkJobs [Source γ α] (hα : Numeral.Faithful α) {lp : Solver α} {seed : ℕ}
    {jobs workers w : Datum α} {n : ℤ} {walks : List (Trajectory α)} {P' : Multistage α}
    (hn : jobs.int? = some n) (hw : Multistage.usefulWorkers jobs workers = .ok w)
    (h : (Multistage.walkJobs lp (γ := γ) (fun _ => Guide.random) seed jobs w).on P =
      (.ok walks, P')) :
    walks.length = n.toNat := by
  obtain ⟨chunks, hchunks, hwalked⟩ := Multistage.walked_of_walkJobs h
  rw [← List.length_map (f := Trajectory.value), hwalked.length,
    Multistage.flatten_of_allocateData hα hn hw hchunks]
  simp [Schedule.span]

variable [Source γ α] [Inference α]

/-- A step loses no cut and adds none twice. -/
theorem Counted.step (h : Counted P₀ stopped x) (hα : Numeral.Faithful α) (hP₀ : P₀.prepared = true)
    (hstep : Step γ x y) :
    ∃ stopped', Counted P₀ stopped' y := by
  have hprepared : x.problem.prepared = true := by rw [Multistage.prepared_of_frame h.frame, hP₀]
  cases hstep with
  | hire _ hidle hn hw hwalks =>
    have hP := (Multistage.walkJobs_samePools hprepared _ _ _ _ _ _ (.refl _)).1 _ _ hwalks
    rw [← length_of_walkJobs hα hn hw hwalks]
    exact ⟨stopped, h.hire hidle hP _⟩
  | stumble _ hwalks =>
    have hP := (Multistage.walkJobs_samePools hprepared _ _ _ _ _ _ (.refl _)).2 _ _ hwalks
    exact ⟨stopped, h.of_samePools hP true nofun⟩
  | work _ _ hworkers hstep => exact ⟨stopped, h.work hworkers hstep⟩
  | @lose _ _ _ w _ _ _ hworkers hstep he =>
    have hw : w.Placed x.problem := (h.placed w (by simp [hworkers])).of_frame h.frame
    obtain ⟨hP, s, hs, hpassed⟩ := Worker.stage_of_loss hw hstep he
    exact ⟨s :: stopped, h.leave hworkers hP hs fun t k _ hk => hpassed t k hk⟩
  | cancel _ _ hworkers =>
    refine ⟨(x.problem.horizon + 1) :: stopped, h.leave hworkers (.refl _) (Nat.succ_pos _)
      fun t k ht _ => ?_⟩
    -- a pass that has not begun stops behind the last stage
    exact decide_eq_decide.mpr ⟨fun hlt => by omega, fun hlt => by omega⟩
  | finish _ _ hworkers hend => exact ⟨stopped, h.finish hworkers hend⟩
  | bound lp => exact ⟨stopped, h.of_samePools
    (Keeps.iff_on.mp (Multistage.computeBound_samePools lp) _ (.refl _)) _ id⟩
  | evaluate lp o limit y _ hy =>
    have hkept := Session.evaluate_keeps_of (γ := γ)
      (Multistage.walkTwins_samePools hprepared lp) o limit
    exact ⟨stopped, h.of_samePools (Keeps.iff_on.mp hkept y (hy ▸ .refl _)) _ id⟩
  | keep b => exact ⟨stopped, h.of_samePools ((Multistage.SamePools.refl _).withBound b) _ id⟩
  | fail => exact ⟨stopped, h.of_samePools (.refl _) true nofun⟩

theorem counted_of_steps (hα : Numeral.Faithful α) (hP₀ : P₀.prepared = true)
    (hempty : P₀.Tally fun _ _ => 0) (hsteps : Relation.ReflTransGen (Step γ) (new P₀) x) :
    ∃ stopped, Counted P₀ stopped x := by
  induction hsteps with
  | refl => exact ⟨[], counted_new hempty⟩
  | tail _ hstep ih =>
    obtain ⟨stopped, hcounted⟩ := ih
    exact hcounted.step hα hP₀ hstep

omit [Scalar α] [Numeral α] [Source γ α] [Inference α] in
/-- When no pass is at work, only the stage of a place tells how many cuts have arrived. -/
theorem Counted.idle (h : Counted P₀ stopped x) (hidle : x.workers = []) :
    x.Balance P₀ fun t => x.finished + stopped.countP fun s => decide (s ≤ t) where
  pools := fun t k ht hk => by
    rw [← Multistage.horizon_of_frame h.frame] at ht
    rw [← Multistage.reachableStates_of_frame h.frame] at hk
    obtain ⟨pool, hpool, hcounts⟩ := h.tally t k ht hk
    rw [arrivals, hidle, List.countP_nil, Nat.add_zero] at hcounts
    exact ⟨pool, hpool, hcounts⟩
  monotone := fun t t' htt' => by
    refine Nat.add_le_add_left (List.countP_mono_left fun s _ hs => ?_) _
    exact decide_eq_true ((of_decide_eq_true hs).trans htt')
  first := by
    have hnone : stopped.countP (fun s => decide (s ≤ 0)) = 0 :=
      List.countP_eq_zero.mpr fun s hs => by simpa using (h.begun s hs).ne'
    exact congrArg (x.finished + ·) hnone
  all := fun hf t => by
    have hasked := h.asked
    rw [hidle, h.whole hf] at hasked
    rw [h.whole hf, hasked]
    rfl

theorem balance_of_steps (hα : Numeral.Faithful α) (hP₀ : P₀.prepared = true)
    (hempty : P₀.Tally fun _ _ => 0) (hsteps : Relation.ReflTransGen (Step γ) (new P₀) x)
    (hidle : x.workers = []) :
    ∃ count, x.Balance P₀ count := by
  obtain ⟨stopped, h⟩ := counted_of_steps hα hP₀ hempty hsteps
  exact ⟨_, h.idle hidle⟩

/-! ### Turns -/

omit [Source γ α] [Inference α] in
/-- The next step of the worker at a place in the list. At its end, and where it finds no solution,
it leaves. -/
def turn? (lp : Solver α) (i : ℕ) (x : Driver α) : Option (Driver α) :=
  match x.workers[i]? with
  | none => none
  | some w =>
    match w.phase with
    | .ahead 0 => some { x with workers := x.workers.eraseIdx i, finished := x.finished + 1 }
    | _ =>
      match (w.step lp).on x.problem with
      | (.ok w', P) => some { x with problem := P, workers := x.workers.set i w' }
      | (.error (.unsolved _), P) =>
        some { x with problem := P, workers := x.workers.eraseIdx i, failed := true }
      | _ => none

theorem step_of_turn {lp : Solver α} {i : ℕ} (h : x.turn? lp i = some y) : Step γ x y := by
  unfold turn? at h
  split at h
  · cases h
  · next w hw =>
    obtain ⟨hi, rfl⟩ := List.getElem?_eq_some_iff.mp hw
    have hworkers : x.workers = x.workers.take i ++ x.workers[i] :: x.workers.drop (i + 1) := by
      rw [List.getElem_cons_drop, List.take_append_drop]
    split at h
    · next hphase =>
      obtain rfl := Option.some.inj h
      rw [List.eraseIdx_eq_take_drop_succ]
      exact .finish _ x hworkers hphase
    · split at h
      · next w' P hrun =>
        obtain rfl := Option.some.inj h
        rw [List.set_eq_take_append_cons_drop, if_pos hi]
        exact .work _ x hworkers hrun
      · next failure P hrun =>
        obtain rfl := Option.some.inj h
        rw [List.eraseIdx_eq_take_drop_succ]
        exact .lose _ x hworkers hrun (.unsolved failure)
      · cases h

omit [Source γ α] [Inference α] in
/-- Turns that the workers take in some order, each with a solver of its own. -/
def turns? (turns : List (Solver α × ℕ)) (x : Driver α) : Option (Driver α) :=
  turns.foldlM (fun x turn => x.turn? turn.1 turn.2) x

/-- The workers may take their turns in any order. -/
theorem steps_of_turns {turns : List (Solver α × ℕ)} (h : x.turns? turns = some y) :
    Relation.ReflTransGen (Step γ) x y := by
  induction turns generalizing x with
  | nil =>
    obtain rfl := Option.some.inj h
    exact .refl
  | cons turn turns ih =>
    obtain ⟨z, hz, h⟩ := Option.bind_eq_some_iff.mp h
    exact .head (step_of_turn hz) (ih h)

end Driver

end Recourse
