import Recourse.Proofs.Exits
import Recourse.Proofs.Session
import Recourse.Proofs.Twins

/-! Calls of training, each of which answers or fails. What a call does to a session comes down to
what its iterations and its evaluations do; all else that it notes is about the call itself. -/

namespace Recourse

open Run (Keeps Triple TripleOn)

variable {γ α : Type}

structure TrainingCall (α : Type) where
  solver : Solver α
  plan : TrainingPlan α
  seed : Datum α

/-- Whether an interrupt may strike a call. -/
def TrainingCall.Disturbed (c : TrainingCall α) : Prop := ∃ i, (c.plan.signal i).isInterrupt = true

namespace Session

/-- Two sessions on one problem, with the same iterations on record. -/
structure SameProgress (x y : Session γ α) : Prop where
  problem : y.simulation.problem = x.simulation.problem
  bounds : y.record.bounds = x.record.bounds
  values : y.record.values = x.record.values
  iteration : y.record.iteration = x.record.iteration

/-- After the last iteration nothing changes but the ending and the journal. -/
theorem conclude_on_progress {I : Session γ α → Prop} (hI : ∀ x y, SameProgress x y → I x → I y)
    (o : TrainingPlan α)
    (ending : Ending) : Triple I (conclude o ending) (fun r x => r = ending ∧ I x)
    fun _ => False := by
  have htell (note : Note α) : Triple I (tell note) (fun _ => I) fun _ => False :=
    Triple.modify fun x hx => hI x _ ⟨rfl, rfl, rfl, rfl⟩ hx
  refine Triple.bind (Q := fun _ => I) (Triple.modify fun x hx => hI x _ ⟨rfl, rfl, rfl, rfl⟩ hx)
    fun _ => ?_
  refine Triple.bind (htell _) fun _ => ?_
  split_ifs
  · exact Triple.bind (htell _) fun _ => Triple.pure fun _ hx => ⟨rfl, hx⟩
  · exact Triple.pure fun _ hx => ⟨rfl, hx⟩

variable [Scalar α] [Numeral α] [Source γ α] [Inference α]

/-! ### A call -/

/-- How a call goes that starts where `A` holds: once the workers are known, `W` holds before each
iteration. A fault of the given kind leaves `E`, and so does an interrupt. -/
structure Route (kind : Fault α → Prop) (c : TrainingCall α) (A W E : Session γ α → Prop) :
    Prop where
  outside : ∀ x y, SameProgress x y → A x → A y
  within : ∀ x y, SameProgress x y → y.record.workers = x.record.workers → W x → W y
  cut : ∀ x y, SameProgress x y → E x → E y
  fault : ∀ x, A x → E x
  interrupted : kind .interrupted
  prepare : Keeps A (onProblem Multistage.prepare)
  enter : ∀ x, A x → Multistage.usefulWorkers c.plan.steps c.plan.workers = .ok x.record.workers →
    W x
  leave : ∀ x, W x → A x
  count : ∀ g i, TripleOn kind W (count c.solver c.plan g (c.plan.signal i)) (fun _ => W) E
  evaluate : ∀ o limit, Keeps W (evaluate c.solver o limit)

namespace Route

variable {kind : Fault α → Prop} {c : TrainingCall α} {A W E : Session γ α → Prop}
  (h : Route kind c A W E)
include h

theorem keeps_on {β : Type} {act : Run α (Session γ α) β} (hact : Keeps W act) :
    TripleOn kind W act (fun _ => W) E :=
  TripleOn.of_triple (hact.conseq (fun _ hx => hx) (fun _ _ hx => hx)
    fun x hx => h.fault x (h.leave x hx))

theorem proceed (g : Standing α) (i : ℕ) :
    TripleOn kind W (proceed c.solver c.plan g (c.plan.signal i)) (fun _ => W) E := by
  have hreview (bound : α) (g : Standing α) :
      Keeps W (review c.solver c.plan bound g (c.plan.signal i)) :=
    review_keeps_of h.evaluate
      (fun x journal hx => h.within x { x with journal } ⟨rfl, rfl, rfl, rfl⟩ rfl hx)
      c.plan bound g _
  apply TripleOn.bind (h.count g i)
  rintro ⟨bound, g⟩
  apply TripleOn.bind (h.keeps_on Keeps.ofExcept)
  intro long
  have hpure (r : Option Ending × Standing α) :
      TripleOn kind W (pure r : Run α (Session γ α) _) (fun _ => W) E := h.keeps_on Keeps.pure
  exact .ite (hpure _) (TripleOn.bind (h.keeps_on (hreview bound g)) fun r => hpure _)

theorem iteration (g : Standing α) (i : ℕ) :
    TripleOn kind W (iteration c.solver c.plan g (c.plan.signal i))
    (fun r x => W x ∨ r.1 = some .interrupted ∧ c.Disturbed ∧ E x) E :=
  TripleOn.interruptible ((h.proceed g i).conseq (fun _ _ hx => .inl hx) fun _ hx => hx)
    h.interrupted
    fun hcoming _ hx => .inr ⟨rfl, ⟨i, hcoming⟩, hx⟩

theorem iterate (fuel : ℕ) (g : Standing α) : TripleOn kind W (iterate c.solver c.plan fuel g)
    (fun ending x => W x ∨ ending = .interrupted ∧ c.Disturbed ∧ E x) E := by
  have hpure (ending : Ending) : TripleOn kind W (pure ending : Run α (Session γ α) Ending)
      (fun ending x => W x ∨ ending = .interrupted ∧ c.Disturbed ∧ E x) E :=
    TripleOn.of_triple (Triple.pure fun _ hx => .inl hx)
  induction fuel generalizing g with
  | zero => exact hpure _
  | succ fuel ih =>
    refine TripleOn.get_bind_any fun x => .ite (hpure _) ?_
    refine TripleOn.bind (h.keeps_on Keeps.ofExcept) fun exhausted => .ite (hpure _) ?_
    refine TripleOn.bind (h.keeps_on Keeps.ofExcept) fun overdue =>
      .ite (hpure _) (.ite (hpure _) ?_)
    apply TripleOn.bind (h.iteration g _)
    rintro ⟨ending, g⟩
    cases ending with
    | none =>
      intro y hy
      exact ih g y (hy.resolve_right fun hy => nomatch hy.1)
    | some ending =>
      refine TripleOn.of_triple (Triple.pure fun y hy => hy.imp_right fun hy => ?_)
      exact ⟨Option.some.inj hy.1, hy.2⟩

theorem outset : Triple A (outset c.plan) (fun _ => W) A := by
  have htell (note : Note α) : Triple W (tell note) (fun _ => W) A :=
    Triple.modify fun x hx => h.within x _ ⟨rfl, rfl, rfl, rfl⟩ rfl hx
  have hsetUp : Triple A (setUp c.plan) (fun _ => W) A := by
    refine Triple.bind (Q := fun _ => A)
      (Triple.modify fun x hx => h.outside x _ ⟨rfl, rfl, rfl, rfl⟩ hx) fun _ => ?_
    refine Triple.bind
      (Q := fun w x => A x ∧ Multistage.usefulWorkers c.plan.steps c.plan.workers = .ok w)
      (Triple.ofExcept (fun _ _ hx hw => ⟨hx, hw⟩) fun _ hx => hx) fun w => ?_
    exact Triple.modify fun x hx => h.enter _ (h.outside x _ ⟨rfl, rfl, rfl, rfl⟩ hx.1) hx.2
  have hrestart : Keeps A restart := Triple.modify fun x hx => h.outside x _ ⟨rfl, rfl, rfl, rfl⟩ hx
  refine Triple.bind h.prepare fun _ => Triple.bind hrestart fun _ => Triple.bind hsetUp fun _ => ?_
  refine Triple.get_bind_any fun x => Triple.bind (htell _) fun _ => ?_
  split_ifs
  · exact Triple.bind (htell _) fun _ => Triple.pure fun _ hx => hx
  · exact Triple.pure fun _ hx => hx

theorem train : TripleOn kind A (train c.solver c.plan)
    (fun ending x => A x ∨ ending = .interrupted ∧ c.Disturbed ∧ E x) E := by
  apply TripleOn.bind (TripleOn.of_triple
    (h.outset.conseq (fun _ hx => hx) (fun _ _ hx => hx) h.fault))
  intro g
  apply TripleOn.bind (h.iterate _ g)
  intro ending
  apply TripleOn.of_triple
  have hlast (x : Session γ α) : (W x ∨ ending = .interrupted ∧ c.Disturbed ∧ E x) →
      (A x ∨ ending = .interrupted ∧ c.Disturbed ∧ E x) := Or.imp_left (h.leave x)
  refine (conclude_on_progress (I := fun x => A x ∨ ending = .interrupted ∧ c.Disturbed ∧ E x)
    (fun x y hxy => ?_) c.plan ending).conseq hlast (fun r x hx => hx.1 ▸ hx.2) fun _ hx => hx.elim
  exact Or.imp (h.outside x y hxy) (And.imp_right (And.imp_right (h.cut x y hxy)))

/-- A call from its seed to its answer, or to its fault. -/
theorem trainSeeded : TripleOn kind A (trainSeeded c.solver c.plan c.seed)
    (fun ending x => A x ∨ ending = .interrupted ∧ c.Disturbed ∧ E x) E := by
  have hto {β : Type} {act : Run α (Session γ α) β} (hact : Keeps A act) :
      TripleOn kind A act (fun _ => A) E :=
    TripleOn.of_triple (hact.conseq (fun _ hx => hx) (fun _ _ hx => hx) h.fault)
  refine TripleOn.bind (hto (Triple.modify fun x hx => h.outside x _ ⟨rfl, rfl, rfl, rfl⟩ hx))
    fun _ => ?_
  refine TripleOn.bind (hto h.prepare) fun _ => .ite ?_ h.train
  refine TripleOn.bind (hto Keeps.ofExcept) fun source => TripleOn.bind (hto ?_) fun _ => h.train
  exact Triple.modify fun x hx => h.outside x _ ⟨rfl, rfl, rfl, rfl⟩ hx

end Route

/-! ### Calls one after the other -/

def answers : List (TrainingCall α) → Session γ α → List (Except (Fault α) Ending) × Session γ α
  | [], x => ([], x)
  | c :: calls, x =>
    let first := (trainSeeded c.solver c.plan c.seed).on x
    let rest := answers calls first.2
    (first.1 :: rest.1, rest.2)

theorem answers_of_prepare {P P₀ : Multistage α} (h : Multistage.prepare.on P = (.ok (), P₀))
    (source : γ) (c : TrainingCall α) (calls : List (TrainingCall α)) :
    answers (c :: calls) (new P source) = answers (c :: calls) (new P₀ source) := by
  have hprepare {Q : Multistage α} (hQ : Multistage.prepare.on Q = (.ok (), P₀)) :
      (onProblem Multistage.prepare).on (new Q source) = (.ok (), new P₀ source) := by
    have hanswer : ((onProblem Multistage.prepare).on (new Q source)).1 = .ok () :=
      congrArg Prod.fst hQ
    exact Prod.ext hanswer (congrArg (new · source) (congrArg Prod.snd hQ))
  have hP₀ : P₀.prepared = true := (Multistage.prepare_prepared P trivial).1 () P₀ h
  have hfirst : (trainSeeded c.solver c.plan c.seed).on (new P source) =
      (trainSeeded c.solver c.plan c.seed).on (new P₀ source) := by
    have hrestart (Q : Multistage α) : restart.on (new Q source) = (.ok (), new Q source) := rfl
    unfold trainSeeded
    rw [Run.bind_ok _ (hrestart P), Run.bind_ok _ (hrestart P₀), Run.bind_ok _ (hprepare h),
      Run.bind_ok _ (hprepare (Multistage.prepare_on_prepared hP₀))]
  simp only [answers, hfirst]

end Session

end Recourse
