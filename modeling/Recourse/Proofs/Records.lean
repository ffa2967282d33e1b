import Recourse.Proofs.Calls
import Recourse.Proofs.Multistage.Jobs
import Recourse.Proofs.Multistage.Settling
import Recourse.Proofs.Resumption

/-! The record of a session after any number of calls of training. A call may fail while it solves
or draws: in the walks, in the passes back, for the bound or in an evaluation. The record never
tells of half an iteration. -/

namespace Recourse

open Run (Coupled Keeps Triple)

variable {γ α β : Type}

/-! ### The bound of a problem -/

namespace Multistage

theorem onModel_lastBound (b : Option α) (t k : ℕ) (act : Stage.Edit α β) :
    Keeps (fun P => P.lastBound = b) (onModel t k act) := Keeps.iff_on.mpr fun _ hP => hP

variable [Scalar α] [Numeral α]

theorem prepare_lastBound (b : Option α) :
    Keeps (fun P : Multistage α => P.lastBound = b) prepare :=
  prepare_keeps_of (fun _ _ _ _ _ _ => onModel_lastBound b _ _ _)
    (fun _ _ _ => onModel_lastBound b _ _ _) fun _ hP => hP

theorem walkTwins_lastBound (lp : Solver α) (b : Option α) :
    WalkTwins lp lp fun P P' : Multistage α => P = P' ∧ P.lastBound = b :=
  walkTwins_self (prepare_lastBound b) fun _ _ _ _ _ =>
    visit_keeps_of fun _ _ _ => onModel_lastBound b _ _ _

theorem refineAlong_lastBound (lp : Solver α) (b : Option α) (x : Trajectory α) :
    Keeps (fun P => P.lastBound = b) (refineAlong lp x) := by
  have hat (t j : ℕ) (found : Outcomes α) (state : List α) (noise : Option (List α)) :
      Keeps (fun P => P.lastBound = b) (refineAt t j found state noise) := by
    refine .get_bind fun P => .bind .ofExcept fun total => .bind .ofExcept fun m => ?_
    cases m.costToGo with
    | none => exact .throw
    | some ctg => exact .bind .ofExcept fun cut => (onModel_lastBound b _ _ _).bind fun _ => .pure
  have hfrom (states : List (List α)) (noises : List (Option (List α))) (n : ℕ) :
      Keeps (fun P => P.lastBound = b) (refineFrom lp states noises n) := by
    induction n with
    | zero => exact .pure
    | succ t ih =>
      refine .bind .ofExcept fun state =>
        .bind .ofExcept fun noise => Keeps.bind (.get_bind fun P => ?_) fun _ => ih
      refine Triple.bind (Triple.mapM (S := fun _ _ => True)
        fun k _ => (onModel_lastBound b _ k _).and_pure trivial)
        fun found => ?_
      exact Triple.conseq (Triple.forM fun j _ => hat _ j _ _ _) (fun _ h => h.1) (fun _ _ h => h)
        fun _ h => h
  exact .get_bind fun P => hfrom _ _ _

end Multistage

/-! ### Faults of reckoning -/

inductive Fault.OfReckoning : Fault α → Prop
  | number : OfReckoning (.kind .number)
  | overflow : OfReckoning .overflow
  | singleObservation : OfReckoning .singleObservation
  | position : OfReckoning .position

theorem Fault.OfReckoning.not_ofWork {e : Fault α} (h : e.OfReckoning) : ¬ e.OfWork := by
  rintro (_ | _ | _ | _) <;> cases h

variable [Scalar α] [Numeral α]

namespace Datum

/-- Data of which one has no items fail to compare for one reason only. -/
theorem order_fault {a b : Datum α} {e : Fault α} (hitems : a.items? = none ∨ b.items? = none)
    (h : order a b = .error e) : e.OfReckoning := by
  unfold order at h
  split at h
  · cases h
  · rcases hitems with h | h <;> cases h
  · obtain rfl := Except.error.inj h
    exact .number
  · split at h
    · cases h
    · obtain rfl := Except.error.inj h
      exact .number

theorem asNumber_fault {d : Datum α} {e : Fault α} (h : d.asNumber = .error e) : e.OfReckoning := by
  cases d with
  | int n =>
    change ofWhole n = .error e at h
    unfold ofWhole at h
    split at h
    · cases h
    · obtain rfl := Except.error.inj h
      exact .overflow
  | bool b => cases h
  | real x => cases h
  | _ =>
    obtain rfl := Except.error.inj h
    exact .number

end Datum

theorem Statistics.shareOf_fault {d : Datum α} {e : Fault α} (h : shareOf d = .error e) :
    e.OfReckoning := by
  unfold shareOf at h
  split at h
  · split at h
    · cases h
    · obtain rfl := Except.error.inj h
      exact .overflow
  · rcases hnumber : d.asNumber with e' | x
    · rw [hnumber] at h
      obtain rfl := Except.error.inj h
      exact Datum.asNumber_fault hnumber
    · rw [hnumber] at h
      cases h

theorem Standing.advance_fault {g : Standing α} {tolerance : Datum α} {bound : α} {e : Fault α}
    (h : g.advance tolerance bound = .error e) : e.OfReckoning := by
  rcases error_of_bind h with h | ⟨stable, -, h⟩
  · unfold isStable at h
    split at h
    · cases h
    · dsimp only at h
      split_ifs at h
      · rcases error_of_bind h with h | ⟨x, -, h⟩
        · exact Datum.asNumber_fault h
        · cases h
      · rcases error_of_bind h with h | ⟨x, -, h⟩
        · exact Datum.order_fault (.inr rfl) h
        · cases h
  · cases h

namespace Session

variable [Inference α] {o : TrainingPlan α} {values : List α}

theorem figure_fault {e : Fault α} (h : figure o values = .error e) : e.OfReckoning := by
  rcases error_of_bind h with h | ⟨several, -, h⟩
  · rcases error_of_bind h with h | ⟨order, -, h⟩
    · exact Datum.order_fault (.inr rfl) h
    · cases h
  · cases several with
    | true =>
      rcases error_of_bind h with h | ⟨interval, -, h⟩
      · unfold Evaluation.intervalOf at h
        split_ifs at h
        · obtain rfl := Except.error.inj h
          exact .singleObservation
        · rcases error_of_bind h with h | ⟨share, -, h⟩
          · exact Statistics.shareOf_fault h
          · unfold Statistics.interval at h
            split_ifs at h
      · cases h
    | false =>
      cases values with
      | nil =>
        obtain rfl := Except.error.inj h
        exact .position
      | cons x values => cases h

/-- An iteration that is summed up has walked for at least one job. -/
theorem pos_of_figure {n : ℤ} {f : Figure α} (hn : o.steps.int? = some n)
    (hvalues : values.length = n.toNat) (h : figure o values = .ok f) : 0 < n := by
  by_contra hpos
  have hnil : values = [] := List.length_eq_zero_iff.mp (by omega)
  have hseveral : decide (1 < n) = false := decide_eq_false (by omega)
  unfold figure at h
  rw [Multistage.exceeds_whole hn rfl, hseveral, hnil] at h
  cases h

end Session

/-! ### Interrupts that tear a record -/

/-- Whether a signal cuts off an iteration when some of its results are noted down and it is not
counted yet. -/
def Signal.tears : Signal → Bool
  | .interrupt .boundNoted | .interrupt .boundSettled | .interrupt .valuesNoted => true
  | _ => false

def TrainingCall.Whole (c : TrainingCall α) : Prop := ∀ i, (c.plan.signal i).tears = false

/-! ### What an iteration notes down -/

/-- What a call notes down for an iteration: as many values as it asks for steps, those of the walks
for its jobs in their order. -/
structure TrainingCall.Notes (γ : Type) [Source γ α] (c : TrainingCall α) (values : List α) :
    Prop where
  steps : c.plan.steps.int? = some (values.length : ℤ)
  walked : ∃ chunks, chunks.flatten = Schedule.span 0 values.length ∧
    Multistage.Walked γ c.solver chunks values

namespace Session

variable [Source γ α] {lp : Solver α} {o : TrainingPlan α}

theorem improve_lastBound (lp : Solver α) (o : TrainingPlan α) (signal : Signal) (b : Option α) :
    Keeps (fun x : Session γ α => x.simulation.problem.lastBound = b) (improve lp o signal) := by
  have honProblem {β : Type} {act : Run α (Multistage α) β}
      (h : Keeps (fun P => P.lastBound = b) act) :
      Keeps (fun x : Session γ α => x.simulation.problem.lastBound = b) (onProblem act) :=
    Keeps.iff_on.mpr fun x hx => Keeps.iff_on.mp h x.simulation.problem hx
  have hwalks (seed : ℕ) (jobs workers : Datum α) : Keeps (fun P : Multistage α => P.lastBound = b)
      (Multistage.walkJobs lp (γ := γ) (fun _ => Guide.random) seed jobs workers signal.walks?) :=
    Coupled.self_iff.mp
      ((Multistage.walkTwins_lastBound lp b).walkJobs
      (fun _ => Guide.random_plain) seed jobs workers _)
  have hrefine (walks : List (Trajectory α)) : Keeps (fun P : Multistage α => P.lastBound = b)
      (Multistage.refineAll lp walks signal.passes?) :=
    Keeps.bind (Triple.forM fun walk _ => Multistage.refineAlong_lastBound lp b walk) fun _ =>
      .breakOff
  refine Keeps.bind (Keeps.iff_on.mpr fun _ hx => hx) fun seed => Keeps.get_bind fun x => ?_
  refine (honProblem (hwalks _ _ _)).bind fun walks => (honProblem (hrefine walks)).bind fun _ => ?_
  exact (honProblem (Multistage.onModel_lastBound b _ _ _)).bind fun _ =>
    .bind .breakOff fun _ => .pure

/-- Two sessions with one record, and one bound that was found last. -/
structure SameRecord (x y : Session γ α) : Prop where
  record : y.record = x.record
  lastBound : y.simulation.problem.lastBound = x.simulation.problem.lastBound

theorem improve_sameRecord (lp : Solver α) (o : TrainingPlan α) (signal : Signal)
    (x : Session γ α) :
    Keeps (SameRecord x) (improve lp o signal) := Keeps.iff_on.mpr fun y hy =>
  ⟨Keeps.iff_on.mp (improve_keeps_record (· = x.record) lp o signal) y hy.record,
    Keeps.iff_on.mp (improve_lastBound lp o signal x.simulation.problem.lastBound) y hy.lastBound⟩

theorem walked_of_improve {signal : Signal} {x y : Session γ α} {r : α × List α}
    (h : (improve lp o signal).on x = (.ok r, y)) :
    ∃ chunks, Schedule.allocateData o.steps x.record.workers = .ok chunks ∧
      Multistage.Walked γ lp chunks r.2 := by
  obtain ⟨seed, x₁, hseed, h⟩ := Run.exists_of_bind h
  rw [Run.bind_ok _ (Run.get_on x₁)] at h
  obtain ⟨walks, x₂, hwalks, h⟩ := Run.exists_of_bind h
  obtain ⟨_, x₃, -, h⟩ := Run.exists_of_bind h
  obtain ⟨bound, x₄, -, h⟩ := Run.exists_of_bind h
  obtain ⟨-, h⟩ := Run.of_breakOff h
  cases h
  have hrecord : x₁.record = x.record := by
    have hdraw : Keeps (fun z : Session γ α => z.record = x.record)
        (onSource (Source.draw Multistage.seedLimit)) :=
      Keeps.iff_on.mpr fun _ hz => hz
    exact (hdraw x rfl).1 _ _ hseed
  rw [← hrecord]
  exact Multistage.walked_of_walkJobs (P := x₁.simulation.problem)
    (Prod.ext (congrArg Prod.fst hwalks :) rfl)

/-! ### What a call leaves behind -/

variable {b : Option α} {made : List (TrainingCall α)} {c : TrainingCall α} {x y : Session γ α}

/-- A record and the bound of its problem, where each iteration was made by a call. Before the first
iteration the bound is `b`. -/
structure Consistent (b : Option α) (made : List (TrainingCall α)) (x : Session γ α) : Prop where
  bounds : x.record.bounds.length = x.record.iteration
  values : List.Forall₂ (TrainingCall.Notes γ) made x.record.values
  iteration : made.length = x.record.iteration
  lastBound : x.simulation.problem.lastBound = x.record.bounds.getLast?.or b

theorem Consistent.of_eq (h : Consistent b made x) (hbounds : y.record.bounds = x.record.bounds)
    (hvalues : y.record.values = x.record.values)
    (hiteration : y.record.iteration = x.record.iteration)
    (hlast : y.simulation.problem.lastBound = x.simulation.problem.lastBound) :
    Consistent b made y where
  bounds := by rw [hbounds, hiteration, h.bounds]
  values := hvalues ▸ h.values
  iteration := hiteration ▸ h.iteration
  lastBound := by rw [hlast, hbounds, h.lastBound]

theorem Consistent.snoc (h : Consistent b made x) {bound : α} {values : List α}
    (hvalues : c.Notes γ values)
    (hbounds : y.record.bounds = x.record.bounds ++ [bound])
    (hrecord : y.record.values = x.record.values ++ [values])
    (hiteration : y.record.iteration = x.record.iteration + 1)
    (hlast : y.simulation.problem.lastBound = some bound) :
    Consistent b (made ++ [c]) y where
  bounds := by rw [hbounds, hiteration, List.length_append, h.bounds, List.length_singleton]
  values := hrecord ▸ List.rel_append h.values (.cons hvalues .nil)
  iteration := by rw [hiteration, List.length_append, h.iteration, List.length_singleton]
  lastBound := by rw [hlast, hbounds, List.getLast?_concat, Option.some_or]

def After (b : Option α) (made : List (TrainingCall α)) (c : TrainingCall α) (x : Session γ α) :
    Prop :=
  ∃ k, Consistent b (made ++ List.replicate k c) x

theorem After.of_eq (h : After b made c x) (hbounds : y.record.bounds = x.record.bounds)
    (hvalues : y.record.values = x.record.values)
    (hiteration : y.record.iteration = x.record.iteration)
    (hlast : y.simulation.problem.lastBound = x.simulation.problem.lastBound) :
    After b made c y := by
  obtain ⟨k, hk⟩ := h
  exact ⟨k, hk.of_eq hbounds hvalues hiteration hlast⟩

theorem After.of_sameProgress (h : After b made c x) (hxy : SameProgress x y) : After b made c y :=
  h.of_eq hxy.bounds hxy.values hxy.iteration (congrArg Multistage.lastBound hxy.problem)

structure Within (b : Option α) (made : List (TrainingCall α)) (c : TrainingCall α)
    (x : Session γ α) : Prop where
  after : After b made c x
  workers : Multistage.usefulWorkers c.plan.steps c.plan.workers = .ok x.record.workers

theorem Within.of_sameRecord (h : Within b made c x) (hxy : SameRecord x y) :
    Within b made c y where
  after := h.after.of_eq (congrArg Record.bounds hxy.record) (congrArg Record.values hxy.record)
    (congrArg Record.iteration hxy.record) hxy.lastBound
  workers := hxy.record ▸ h.workers

variable [Inference α]

theorem notes_of_improve (hα : Numeral.Faithful α) {signal : Signal} (hx : Within b made c x)
    {r : α × List α} (h : (improve c.solver c.plan signal).on x = (.ok r, y)) {f : Figure α}
    (hfigure : figure c.plan r.2 = .ok f) : c.Notes γ r.2 := by
  obtain ⟨chunks, hchunks, hwalked⟩ := walked_of_improve h
  obtain ⟨n, hn⟩ := Multistage.exists_int_of_allocateData hchunks
  have hflatten := Multistage.flatten_of_allocateData hα hn hx.workers hchunks
  have hlength : r.2.length = n.toNat := by
    rw [hwalked.length, hflatten]
    simp [Schedule.span]
  have hpos := pos_of_figure hn hlength hfigure
  have hcast : (r.2.length : ℤ) = n := by omega
  exact ⟨hcast ▸ hn, chunks, hcast ▸ hflatten, hwalked⟩

open Run (TripleOn)

omit [Scalar α] [Numeral α] [Source γ α] [Inference α] in
/-- Where no interrupt tears a record, a bound and its values are kept together. -/
theorem keep_whole {signal : Signal} (hwhole : signal.tears = false) (bound : α) (values : List α) :
    (keep bound values signal : Run α (Session γ α) Unit) = keep bound values .none := by
  rcases signal with _ | _ | moment
  · rfl
  · rfl
  · cases moment <;> first | rfl | cases hwhole

/-- Up to the point where it is counted, an iteration leaves a record that is consistent. -/
theorem count_within (hα : Numeral.Faithful α) (g : Standing α) {signal : Signal}
    (hwhole : signal.tears = false) : TripleOn Fault.OfWork (Within (γ := γ) b made c)
      (count c.solver c.plan g signal) (fun _ => Within b made c) (Within b made c) := by
  intro x hx
  have himprove : TripleOn Fault.OfWork (· = x) (improve (γ := γ) c.solver c.plan signal)
      (fun r y => SameRecord x y ∧ ∀ f, figure c.plan r.2 = .ok f → c.Notes γ r.2)
      (Within b made c) := by
    intro z hz
    subst hz
    obtain ⟨hok, herror⟩ := improve_sameRecord c.solver c.plan signal z z ⟨rfl, rfl⟩
    exact ⟨fun r y h => ⟨hok r y h, fun f => notes_of_improve hα hx h⟩, fun e y h _ =>
      hx.of_sameRecord (herror e y h)⟩
  refine TripleOn.bind himprove (fun r y hy => ?_) x rfl
  -- the bound and the values are noted down, but the iteration is not counted yet
  let Kept : Session γ α → Prop := fun z => z.record.bounds = x.record.bounds ++ [r.1] ∧
    z.record.values = x.record.values ++ [r.2] ∧ z.record.iteration = x.record.iteration ∧
    z.record.workers = x.record.workers ∧ z.simulation.problem.lastBound = some r.1
  have hkeep : Triple (· = y) (keep (γ := γ) r.1 r.2 signal) (fun _ => Kept) (Within b made c) := by
    rw [keep_whole hwhole]
    rintro _ rfl
    refine ⟨fun _ z hrun => ?_, fun e z hrun => ?_⟩ <;> cases hrun
    exact ⟨by rw [← hy.1.record], by rw [← hy.1.record], by rw [← hy.1.record], by
      rw [← hy.1.record], rfl⟩
  refine TripleOn.bind (TripleOn.of_triple hkeep) (fun _ => ?_) y rfl
  refine TripleOn.bind (Q := fun _ z => Kept z ∧ c.Notes γ r.2)
    (TripleOn.ofExcept (fun z f hz hf => ⟨hz, hy.2 f hf⟩)
    fun e he => (figure_fault he).not_ofWork) fun f => ?_
  refine TripleOn.bind (Q := fun _ z => Kept z ∧ c.Notes γ r.2)
    (TripleOn.ofExcept (fun z _ hz _ => hz)
    fun e he => (Standing.advance_fault he).not_ofWork) fun g => TripleOn.of_triple ?_
  -- from here on it is
  have hpause (struck : Bool) :
      Keeps (Within b made c) (Run.breakOff struck : Run α (Session γ α) Unit) := .breakOff
  apply Triple.bind (Q := fun _ => Within b made c)
  · apply Triple.modify
    rintro z ⟨⟨hbounds, hvalues, hiteration, hworkers, hlast⟩, hnotes⟩
    obtain ⟨k, hk⟩ := hx.after
    refine ⟨⟨k + 1, ?_⟩, hworkers ▸ hx.workers⟩
    rw [List.replicate_succ', ← List.append_assoc]
    exact hk.snoc hnotes hbounds hvalues (congrArg (· + 1) hiteration) hlast
  · intro _
    apply (hpause _).bind
    intro _
    apply Triple.get_bind_any
    intro w
    apply Triple.bind (Q := fun _ => Within b made c)
    · apply Triple.modify
      intro z hz
      exact ⟨hz.after.of_eq rfl rfl rfl rfl, hz.workers⟩
    · exact fun _ => (hpause _).bind fun _ => .pure

theorem evaluate_sameRecord (lp : Solver α) (o : EvaluationPlan α) (limit : Option ℕ)
    (x : Session γ α) :
    Keeps (SameRecord x) (evaluate lp o limit) :=
  Keeps.iff_on.mpr fun y hy => ⟨hy.record, Keeps.iff_on.mp
    (evaluate_keeps_of (Multistage.walkTwins_lastBound lp x.simulation.problem.lastBound) o limit) y
    hy.lastBound⟩

omit [Inference α] in
theorem prepare_after : Keeps (After (γ := γ) b made c) (onProblem Multistage.prepare) :=
  Keeps.iff_on.mpr fun x hx =>
  hx.of_eq rfl rfl rfl (Keeps.iff_on.mp (Multistage.prepare_lastBound _) x.simulation.problem rfl)

/-- Only counted iterations leave their mark on a record that no interrupt tears. -/
theorem route_after (hα : Numeral.Faithful α) (hc : c.Whole) :
    Route Fault.OfWork c (After (γ := γ) b made c) (Within b made c) (After b made c) where
  outside := fun _ _ hxy hx => hx.of_sameProgress hxy
  within := fun _ _ hxy hworkers hx => ⟨hx.after.of_sameProgress hxy, hworkers ▸ hx.workers⟩
  cut := fun _ _ hxy hx => hx.of_sameProgress hxy
  fault := fun _ hx => hx
  interrupted := .interrupted
  prepare := prepare_after
  enter := fun _ hx hworkers => ⟨hx, hworkers⟩
  leave := fun _ hx => hx.after
  count := fun g i => (count_within hα g (hc i)).conseq (fun _ _ hx => hx) fun _ hx => hx.after
  evaluate := fun o limit => Keeps.iff_on.mpr fun x hx =>
    hx.of_sameRecord (Keeps.iff_on.mp (evaluate_sameRecord c.solver o limit x) x ⟨rfl, rfl⟩)

/-- A call that answers, or fails in its work, adds what its iterations noted down. -/
theorem trainSeeded_after (hα : Numeral.Faithful α) (hc : c.Whole) :
    TripleOn Fault.OfWork (Consistent (γ := γ) b made) (trainSeeded c.solver c.plan c.seed)
      (fun _ => After b made c) (After b made c) := by
  intro x hx
  have hstart : After b made c x := ⟨0, by rwa [List.replicate_zero, List.append_nil]⟩
  exact ((route_after hα hc).trainSeeded.conseq (fun _ _ hy => hy.elim id fun hy => hy.2.2)
    fun _ hy => hy) x hstart

/-! ### Torn records -/

omit [Inference α] in
/-- A signal that tears a record does not strike before there is a bound. -/
theorem improve_of_tears {signal : Signal} (h : signal.tears = true) (lp : Solver α)
    (o : TrainingPlan α) :
    (improve lp o signal : Run α (Session γ α) _) = improve lp o .none := by
  rcases signal with _ | _ | moment
  · cases h
  · cases h
  · cases moment <;> first | rfl | cases h

omit [Scalar α] [Numeral α] [Source γ α] [Inference α] in
theorem keep_of_tears {signal : Signal} (h : signal.tears = true) (bound : α) (values : List α)
    (x : Session γ α) :
    ∃ y, (keep bound values signal).on x = (.error .interrupted, y) ∧
      y.record.bounds = x.record.bounds ++ [bound] ∧
      y.record.iteration = x.record.iteration := by
  rcases signal with _ | _ | moment
  · cases h
  · cases h
  · cases moment <;> first | exact ⟨_, rfl, rfl, rfl⟩ | cases h

/-- An iteration that is cut off where this tears its record ends the run like any other interrupt,
but there is one more bound than iterations are counted. -/
theorem iteration_torn {signal : Signal} (h : signal.tears = true) (g : Standing α) {bound : α}
    {values : List α} (himprove : (improve lp o .none).on x = (.ok (bound, values), y)) :
    ∃ z, (iteration lp o g signal).on x = (.ok (some .interrupted, g), z) ∧
      z.record.bounds = x.record.bounds ++ [bound] ∧ z.record.iteration = x.record.iteration := by
  have hrecord : y.record = x.record :=
    ((improve_keeps_record (· = x.record) lp o .none) x rfl).1 _ _ himprove
  obtain ⟨z, hkeep, hbounds, hiteration⟩ := keep_of_tears h bound values y
  have hcoming : signal.isInterrupt = true := by
    cases signal with
    | interrupt moment => rfl
    | _ => cases h
  rw [← improve_of_tears h] at himprove
  have hproceed : (proceed lp o g signal).on x = (.error .interrupted, z) := by
    rw [proceed, Run.bind_error _ ?_]
    rw [count, Run.bind_ok _ himprove]
    exact Run.bind_error _ hkeep
  refine ⟨z, ?_, by rw [hbounds, hrecord], by rw [hiteration, hrecord]⟩
  rw [iteration, hcoming]
  exact Run.interruptible_of_interrupted _ hproceed

/-! ### Any number of calls -/

/-- Calls on a session, one after the other. Each of them answers, or it fails where it solves a
model or draws something; it may be interrupted, unless this tears the record. The list tells for
each iteration by which call it was made. -/
inductive Calls (x₀ : Session γ α) : List (TrainingCall α) → Session γ α → Prop
  | nil : Calls x₀ [] x₀
  | snoc {made : List (TrainingCall α)} {x y : Session γ α} {r : Except (Fault α) Ending}
    (h : Calls x₀ made x)
    (c : TrainingCall α) (hc : c.Whole) (hrun : (trainSeeded c.solver c.plan c.seed).on x = (r, y))
    (hfault : ∀ e, r = .error e → e.OfWork) :
    Calls x₀ (made ++ List.replicate (y.record.iteration - x.record.iteration) c) y

theorem Calls.consistent (hα : Numeral.Faithful α) {p : Multistage α} {source : γ}
    (h : Calls (Session.new p source) made x) : Consistent p.lastBound made x := by
  induction h with
  | nil => exact ⟨rfl, .nil, rfl, rfl⟩
  | @snoc made x y r h c hc hrun hfault ih =>
    obtain ⟨k, hk⟩ : After p.lastBound made c y := by
      rcases r with e | ending
      · exact (trainSeeded_after hα hc x ih).2 e y hrun (hfault e rfl)
      · exact (trainSeeded_after hα hc x ih).1 ending y hrun
    have hlength : y.record.iteration - x.record.iteration = k := by
      rw [← hk.iteration, ← ih.iteration, List.length_append, List.length_replicate,
        Nat.add_sub_cancel_left]
    rwa [hlength]

/-- After any number of calls on a new session there are as many bounds and as many lists of values
as iterations, each list is what the call of its iteration asked for, and the problem has the bound
that was recorded last. An iteration that fails or is cut off before it has a bound leaves all of
this as it is; one that is cut off at a moment that tears the record does not. -/
theorem Calls.record_consistent (hα : Numeral.Faithful α) {p : Multistage α} {source : γ}
    (h : Calls (Session.new p source) made x) :
    x.record.bounds.length = x.record.iteration ∧ x.record.values.length = x.record.iteration ∧
      made.length = x.record.iteration ∧
      (∀ (i : ℕ) c, made[i]? = some c → ∃ values, x.record.values[i]? = some values ∧
        c.plan.steps.int? = some (values.length : ℤ) ∧
        ∃ chunks, chunks.flatten = Schedule.span 0 values.length ∧
          Multistage.Walked γ c.solver chunks values) ∧
      x.simulation.problem.lastBound = x.record.bounds.getLast?.or p.lastBound ∧
      (∀ (lp : Solver α) (o : TrainingPlan α) (g : Standing α) (signal : Signal) (e : Fault α)
        (y z : Session γ α),
        (improve lp o signal).on y = (.error e, z) →
          (∃ r, (iteration lp o g signal).on y = (r, z) ∧
            (r = .error e ∨ e = .interrupted ∧ r = .ok (some .interrupted, g))) ∧
            z.record = y.record ∧
          z.simulation.problem.lastBound = y.simulation.problem.lastBound) ∧
      ∀ (lp : Solver α) (o : TrainingPlan α) (g : Standing α) (signal : Signal) (y z : Session γ α)
        (bound : α)
        (values : List α), signal.tears = true →
        (improve lp o .none).on y = (.ok (bound, values), z) →
          ∃ w, (iteration lp o g signal).on y = (.ok (some .interrupted, g), w) ∧
            w.record.bounds = y.record.bounds ++ [bound] ∧
            w.record.iteration = y.record.iteration := by
  have hx := h.consistent hα
  refine ⟨hx.bounds, hx.values.length_eq.symm.trans hx.iteration, hx.iteration,
    fun i c hi => ?_, hx.lastBound, ?_, ?_⟩
  · obtain ⟨hlt, rfl⟩ := List.getElem?_eq_some_iff.mp hi
    have hlt' : i < x.record.values.length := hx.values.length_eq ▸ hlt
    have hnotes := hx.values.get hlt hlt'
    exact ⟨_, List.getElem?_eq_getElem hlt', hnotes.steps, hnotes.walked⟩
  · intro lp o g signal e y z himprove
    obtain ⟨hrecord, hlast⟩ := ((improve_sameRecord lp o signal y) y ⟨rfl, rfl⟩).2 e z himprove
    have hproceed : (proceed lp o g signal).on y = (.error e, z) :=
      Run.bind_error _ (Run.bind_error _ himprove)
    exact ⟨Run.interruptible_of_error _ _ hproceed, hrecord, hlast⟩
  · intro lp o g signal y z bound values hsignal himprove
    exact iteration_torn hsignal g himprove

end Session

/-! ### A call that fails in its second iteration -/

namespace Problems

/-- The optima of the programs that come up, but for a first stage with two cuts. -/
def shyOptimum : Solver ℚ := fun P =>
  match P.rows with
  | [_, second] => if second.relation = .equal then stockOptimum P else .gaveUp
  | _ => stockOptimum P

def shyCall : TrainingCall ℚ :=
  { solver := shyOptimum, seed := .null
    plan :=
    { shortagePlan with
      steps := .int 2, workers := .int 2, maxIterations := .int 3, evaluationPeriod := .null } }

def stepCall : TrainingCall ℚ :=
  { solver := stockOptimum, plan := { shortagePlan with maxIterations := .int 1 }, seed := .null }

def shyRun : Session ℕ ℚ :=
  ((Session.trainSeeded shyCall.solver shyCall.plan shyCall.seed).on shortageSession).2

def stepRun : Session ℕ ℚ :=
  ((Session.trainSeeded stepCall.solver stepCall.plan stepCall.seed).on shyRun).2

def unsolved? : Except (Fault ℚ) Ending → Option (SolveFailure ℚ)
  | .error (.unsolved failure) => some failure
  | _ => none

theorem eq_of_unsolved? {failure : SolveFailure ℚ} :
    ∀ {r : Except (Fault ℚ) Ending}, unsolved? r = some failure → r = .error (.unsolved failure)
  | .error (.unsolved _), h => by rw [Option.some.inj h]

theorem shyRun_eq : ∃ failure,
    (Session.trainSeeded shyCall.solver shyCall.plan shyCall.seed).on shortageSession =
    (.error (.unsolved failure), shyRun) := by
  have hunsolved : (unsolved? ((Session.trainSeeded shyCall.solver shyCall.plan shyCall.seed).on
      shortageSession).1).isSome = true := by decide +kernel
  obtain ⟨failure, hfailure⟩ := Option.isSome_iff_exists.mp hunsolved
  exact ⟨failure, Prod.ext (eq_of_unsolved? hfailure) rfl⟩

theorem stepRun_eq : (Session.trainSeeded stepCall.solver stepCall.plan stepCall.seed).on shyRun =
    (.ok .iterationLimit, stepRun) := Run.on_of_answer (by decide +kernel)

/-- Two steps an iteration, and an interrupt in the first one, after the values were noted. -/
def tornCall : TrainingCall ℚ :=
  { shyCall with plan := { shyCall.plan with
      signal := fun i => if i = 1 then .interrupt .valuesNoted else .none } }

def tornRun : Except (Fault ℚ) Ending × Session ℕ ℚ :=
  (Session.trainSeeded tornCall.solver tornCall.plan tornCall.seed).on shortageSession

theorem calls_shortage : Session.Calls shortageSession [shyCall, stepCall] stepRun := by
  obtain ⟨failure, hshy⟩ := shyRun_eq
  have hfirst : shyRun.record.iteration - shortageSession.record.iteration = 1 := by decide +kernel
  have hsecond : stepRun.record.iteration - shyRun.record.iteration = 1 := by decide +kernel
  have hwork (e : Fault ℚ) (he : (.error (.unsolved failure) : Except (Fault ℚ) Ending) =
      .error e) : e.OfWork :=
    Except.error.inj he ▸ .unsolved failure
  have hcalls := (Session.Calls.nil.snoc shyCall (fun _ => rfl) hshy hwork).snoc stepCall
    (fun _ => rfl) stepRun_eq nofun
  rwa [hfirst, hsecond] at hcalls

end Problems

open Problems in
theorem Session.Calls.record_consistent_shortage : stepRun.record.bounds = [1, 3 / 2] ∧
    stepRun.record.values = [[3, 1], [5 / 2]] ∧
    stepRun.record.bounds.length = stepRun.record.iteration ∧
      stepRun.simulation.problem.lastBound = some (3 / 2) ∧
      ∃ chunks, chunks.flatten = Schedule.span 0 2 ∧
        Multistage.Walked ℕ shyOptimum chunks [(3 : ℚ), 1] := by
  have hbounds : stepRun.record.bounds = [1, 3 / 2] := by decide +kernel
  have hvalues : stepRun.record.values = [[3, 1], [5 / 2]] := by decide +kernel
  obtain ⟨hlength, -, -, hmade, hlast, -⟩ :=
    Session.Calls.record_consistent Numeral.faithful_rat calls_shortage
  obtain ⟨values, hi, -, hwalked⟩ := hmade 0 shyCall rfl
  rw [hvalues] at hi
  obtain rfl := Option.some.inj hi
  rw [hbounds] at hlast
  exact ⟨hbounds, hvalues, hlength, hlast, hwalked⟩

open Problems in
/-- The call answers, and there is a bound for an iteration that is not counted. -/
theorem Session.record_torn : tornRun.1 = .ok .interrupted ∧ tornRun.2.record.bounds = [1] ∧
    tornRun.2.record.values = [[3, 1]] ∧ tornRun.2.record.iteration = 0 ∧
    tornRun.2.record.bounds.length ≠ tornRun.2.record.iteration := by
  have hrun : (Session.trainSeeded tornCall.solver tornCall.plan tornCall.seed).on shortageSession =
      (.ok .interrupted, tornRun.2) := Run.on_of_answer (by decide +kernel)
  have hrecord : tornRun.2.record.bounds = [1] ∧ tornRun.2.record.values = [[3, 1]] ∧
      tornRun.2.record.iteration = 0 := by decide +kernel
  obtain ⟨hbounds, hvalues, hiteration⟩ := hrecord
  refine ⟨congrArg Prod.fst hrun, hbounds, hvalues, hiteration, ?_⟩
  rw [hbounds, hiteration]
  simp

end Recourse
