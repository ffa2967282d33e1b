import Recourse.Proofs.Comparison.Training

/-! What training keeps of a session. A property is kept by whole runs if improving the policy keeps
it, if recording the bound that results does, and if evaluations do. -/

namespace Recourse.Session

open Run (Triple Keeps)

variable {γ α : Type} [Scalar α] [Numeral α] [Source γ α] [Inference α] {lp : Solver α}
  {I : Session γ α → Prop}
  {S : α → Session γ α → Prop}

omit [Scalar α] [Numeral α] [Source γ α] [Inference α] in
theorem tell_keeps_of (hjournal : ∀ x journal, I x → I { x with journal }) (note : Note α) :
    Keeps I (tell note) :=
  Triple.modify fun x hx => hjournal x _ hx

/-- A review changes a session by its evaluation and in the journal. -/
theorem review_keeps_of (hevaluate : ∀ o limit, Keeps I (evaluate lp o limit))
    (hjournal : ∀ x journal, I x → I { x with journal }) (o : TrainingPlan α) (bound : α)
    (g : Standing α) (signal : Signal) : Keeps I (review lp o bound g signal) := by
  apply Keeps.get_bind
  intro x
  refine .bind .ofExcept fun due => .ite .pure (.get_bind fun x' => ?_)
  apply (hevaluate _ _).bind
  intro e
  refine .bind .ofExcept fun figure => ?_
  cases e.gap with
  | none => exact .throw
  | some gap =>
    apply (tell_keeps_of hjournal _).bind
    intro _
    exact .bind .breakOff fun _ => .get_bind fun _ => .bind .ofExcept fun _ => .pure

omit [Scalar α] [Numeral α] [Source γ α] [Inference α] in
theorem keep_triple_of {J : Session γ α → Prop} {bound : α}
    (hbounds : ∀ x,
      J x → I { x with record := { x.record with bounds := x.record.bounds ++ [bound] } })
    (hlast : ∀ x, I x → I { x with simulation := { x.simulation with
      problem := { x.simulation.problem with lastBound := some bound } } })
    (hvalues : ∀ x values, I x → I { x with record := { x.record with values } })
    (values : List α) (signal : Signal) :
    Triple J (keep bound values signal) (fun _ => I) I := by
  apply Triple.bind (Q := fun _ => I) (Triple.modify hbounds)
  intro _
  have hlast : Keeps I (onProblem (γ := γ) (modify fun p => { p with lastBound := some bound })) :=
    Keeps.iff_on.mpr hlast
  refine Keeps.bind .breakOff fun _ => hlast.bind fun _ => .bind .breakOff fun _ => ?_
  exact Keeps.bind (Triple.modify fun x hx => hvalues x _ hx) fun _ => .breakOff

/-- A property `I` that an iteration keeps, wherever it is cut off; `S` is what is known of a bound
when it is recorded. -/
structure Invariant (lp : Solver α) (I : Session γ α → Prop) (S : α → Session γ α → Prop) :
    Prop where
  improve : ∀ o signal, Triple I (improve lp o signal) (fun r x => I x ∧ S r.1 x) I
  keep : ∀ bound values signal,
    Triple (fun x => I x ∧ S bound x) (keep bound values signal) (fun _ => I) I
  evaluate : ∀ o limit, Keeps I (evaluate lp o limit)
  count : ∀ x iteration, I x → I { x with record := { x.record with iteration } }
  journal : ∀ x journal, I x → I { x with journal }

namespace Invariant

variable (h : Invariant lp I S)
include h

theorem count_keeps (o : TrainingPlan α) (g : Standing α) (signal : Signal) :
    Keeps I (Session.count lp o g signal) := by
  apply Triple.bind (h.improve o signal)
  intro r
  apply Triple.bind (h.keep r.1 r.2 signal)
  intro _
  refine Keeps.bind .ofExcept fun figure => .bind .ofExcept fun g => ?_
  apply Keeps.bind (Triple.modify fun x hx => h.count x _ hx)
  intro _
  refine Keeps.bind .breakOff fun _ => .get_bind fun x => ?_
  exact (tell_keeps_of h.journal _).bind fun _ => .bind .breakOff fun _ => .pure

theorem iteration_keeps (o : TrainingPlan α) (g : Standing α) (signal : Signal) :
    Keeps I (iteration lp o g signal) := by
  apply Keeps.interruptible
  apply (h.count_keeps o g signal).bind
  intro r
  refine .bind .ofExcept fun converged => .ite .pure ?_
  exact (review_keeps_of h.evaluate h.journal o r.1 r.2 signal).bind fun _ => .pure

theorem iterate_keeps (o : TrainingPlan α) (n : ℕ) (g : Standing α) :
    Keeps I (iterate lp o n g) := by
  induction n generalizing g with
  | zero => exact Keeps.pure
  | succ n ih =>
    apply Keeps.get_bind
    intro x
    refine .ite .pure (.bind .ofExcept fun exhausted => .ite .pure ?_)
    refine .bind .ofExcept fun overdue => .ite .pure (.ite .pure ?_)
    apply (h.iteration_keeps o g _).bind
    rintro ⟨ending, g⟩
    cases ending with
    | none => exact ih g
    | some ending => exact Keeps.pure

omit [Scalar α] [Numeral α] [Source γ α] [Inference α] h in
theorem conclude_keeps (hjournal : ∀ x journal, I x → I { x with journal })
    (hending : ∀ x ending, I x → I { x with record := { x.record with ending } })
    (o : TrainingPlan α) (ending : Ending) : Keeps I (conclude o ending) := by
  apply Keeps.bind (Triple.modify fun x hx => hending x _ hx)
  intro _
  have htell (note : Note α) := tell_keeps_of hjournal note
  exact (htell _).bind fun _ => .ite ((htell _).bind fun _ => .pure) .pure

variable (hprepare : Keeps I (onProblem Multistage.prepare))
  (hrecord : ∀ x record, record.bounds = x.record.bounds → I x → I { x with record })
include hprepare hrecord

theorem train_keeps (o : TrainingPlan α) : Keeps I (train lp o) := by
  have htell (note : Note α) := tell_keeps_of h.journal note
  have hsetUp : Keeps I (setUp o) := by
    refine Keeps.bind (Triple.modify fun x hx => hrecord x _ rfl hx) fun _ => ?_
    exact .bind .ofExcept fun workers => Triple.modify fun x hx => hrecord x _ rfl hx
  have houtset : Keeps I (outset o) := by
    apply hprepare.bind
    intro _
    apply Keeps.bind (Triple.modify fun x hx => h.journal x _ hx)
    intro _
    refine hsetUp.bind fun _ => .get_bind fun x => (htell _).bind fun _ => .ite ?_ .pure
    exact (htell _).bind fun _ => .pure
  apply houtset.bind
  intro g
  apply (h.iterate_keeps o _ g).bind
  intro ending
  exact conclude_keeps h.journal (fun x ending hx => hrecord x _ rfl hx) o ending

theorem trainSeeded_keeps
    (hsource : ∀ x source, I x → I { x with simulation := { x.simulation with source } })
    (o : TrainingPlan α) (seed : Datum α) : Keeps I (trainSeeded lp o seed) := by
  have htrain := h.train_keeps hprepare hrecord o
  apply Keeps.bind (Triple.modify fun x hx => h.journal x _ hx)
  intro _
  refine hprepare.bind fun _ => .ite (.bind .ofExcept fun source => ?_) htrain
  exact Keeps.bind (Triple.modify fun x hx => hsource x _ hx) fun _ => htrain

end Invariant

/-! ### Endings -/

omit [Scalar α] [Numeral α] [Source γ α] [Inference α] in
theorem onProblem_keeps_record {β : Type} (J : Record α → Prop) (act : Run α (Multistage α) β) :
    Keeps (fun x : Session γ α => J x.record) (onProblem act) := Keeps.iff_on.mpr fun _ hx => hx

omit [Inference α] in
theorem improve_keeps_record (J : Record α → Prop) (lp : Solver α) (o : TrainingPlan α)
    (signal : Signal) :
    Keeps (fun x : Session γ α => J x.record) (improve lp o signal) := by
  have hproblem {β : Type} (act : Run α (Multistage α) β) := onProblem_keeps_record (γ := γ) J act
  apply Keeps.bind (Keeps.iff_on.mpr fun _ hx => hx)
  intro seed
  refine .get_bind fun x => (hproblem _).bind fun walks => (hproblem _).bind fun _ => ?_
  exact (hproblem _).bind fun bound => .bind .breakOff fun _ => .pure

/-- No iteration tells how training ended before. -/
theorem invariant_ending (lp : Solver α) (e : Option Ending) :
    Invariant lp (fun x : Session γ α => x.record.ending = e) fun _ _ => True where
  improve := fun o signal => (improve_keeps_record (·.ending = e) lp o signal).and_pure trivial
  keep := fun _ => keep_triple_of (fun _ hx => hx.1) (fun _ hx => hx) fun _ _ hx => hx
  evaluate := fun _ _ => Keeps.iff_on.mpr fun _ hx => hx
  count := fun _ _ hx => hx
  journal := fun _ _ hx => hx

/-- A run leaves its ending behind, if it comes to one. -/
theorem trainSeeded_settles (lp : Solver α) (o : TrainingPlan α) (seed : Datum α)
    (e : Option Ending) : Triple (fun x : Session γ α => x.record.ending = e)
    (trainSeeded lp o seed)
      (fun ending x => x.record.ending = some ending) fun x => x.record.ending = e := by
  set I : Session γ α → Prop := fun x => x.record.ending = e
  have htell (note : Note α) : Keeps I (tell note) := Triple.modify fun _ hx => hx
  have hprepare : Keeps I (onProblem Multistage.prepare) :=
    onProblem_keeps_record (fun r => r.ending = e) _
  have hrestart : Keeps I restart := Triple.modify fun _ hx => hx
  have hsetUp : Keeps I (setUp o) := by
    refine Keeps.bind (Triple.modify fun _ hx => hx) fun _ => ?_
    exact .bind .ofExcept fun _ => Triple.modify fun _ hx => hx
  have houtset : Keeps I (outset o) := by
    refine hprepare.bind fun _ => hrestart.bind fun _ => hsetUp.bind fun _ => .get_bind fun _ => ?_
    exact (htell _).bind fun _ => .ite ((htell _).bind fun _ => .pure) .pure
  have hconclude (ending : Ending) :
      Triple I (conclude o ending) (fun ending x => x.record.ending = some ending) I := by
    have htold (note : Note α) : Triple (fun x : Session γ α => x.record.ending = some ending)
        (tell note) (fun _ x => x.record.ending = some ending) I := Triple.modify fun _ hx => hx
    apply Triple.bind (Q := fun _ x => x.record.ending = some ending) (Triple.modify fun _ _ => rfl)
    intro _
    apply Triple.bind (htold _)
    intro _
    split_ifs
    · exact Triple.bind (htold _) fun _ => Triple.pure fun _ hx => hx
    · exact Triple.pure fun _ hx => hx
  have htrain : Triple I (train lp o) (fun ending x => x.record.ending = some ending) I :=
    Triple.bind houtset fun g => Triple.bind ((invariant_ending lp e).iterate_keeps o _ g) hconclude
  refine Triple.bind hrestart fun _ => Triple.bind hprepare fun _ => ?_
  split_ifs
  · apply Triple.bind (Q := fun _ => I) Keeps.ofExcept
    intro source
    exact Triple.bind (Q := fun _ => I) (Triple.modify fun _ hx => hx) fun _ => htrain
  · exact htrain

end Recourse.Session
