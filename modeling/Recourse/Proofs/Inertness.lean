import Recourse.Problems
import Recourse.Proofs.Comparison.Files
import Recourse.Proofs.Multistage.Dimensions
import Recourse.Proofs.Multistage.Joining

/-! Markov states that cannot be reached are inert. Whatever is done with a problem, their models
stay as they were written, and nothing tells what they are. The states that can be reached are the
ones that are visited, and their models are joined by then. -/

namespace Recourse

open Multistage (Beside Idle Parallel Spare Work WriteStep)
open Run (Keeps Triple)
open Source (Lawful)

variable {α γ : Type}

/-! ### Tasks -/

/-- What can be done with a problem once it is written. Each task brings its solver, its source and
its files, and what an earlier task of its kind has found. -/
inductive Task (γ α : Type) where
  | prepare
  | train (lp : Solver α) (o : TrainingPlan α) (seed : Datum α) (source : γ) (record : Record α)
  | evaluate (lp : Solver α) (o : EvaluationPlan α) (seed : Datum α) (source : γ)
    (evaluation : Evaluation α)
  | write (start : String) (name author description : Datum α) (folder : Folder)
  | read (start : String) (folder : Folder)

inductive Findings (γ α : Type) where
  | prepared (answer : Except (Fault α) Unit)
  | trained (answer : Except (Fault α) Ending) (source : γ) (record : Record α)
  | evaluated (answer : Except (Fault α) Unit) (source : γ) (evaluation : Evaluation α)
  | written (answer : Except (Fault α) Unit) (folder : Folder)
  | read (answer : Except (Fault α) Provenance) (folder : Folder)

section

variable [Scalar α] [Numeral α] [Source γ α] [Inference α]

def Task.on : Task γ α → Multistage α → Findings γ α × Multistage α
  | .prepare, P =>
    let r := Multistage.prepare.on P
    (.prepared r.1, r.2)
  | .train lp o seed source record, P =>
    let r := (Session.trainSeeded lp o seed).on
      { simulation := { problem := P, source }, record, journal := [] }
    (.trained r.1 r.2.simulation.source r.2.record.open, r.2.simulation.problem)
  | .evaluate lp o seed source evaluation, P =>
    let r := (Evaluation.runSeeded lp o seed).on
      { evaluation, simulation := { problem := P, source } }
    (.evaluated r.1 r.2.simulation.source r.2.evaluation, r.2.simulation.problem)
  | .write start name author description folder, P =>
    let r := (CutFiles.writeCuts start name author description).on { problem := P, folder }
    (.written r.1 r.2.folder, r.2.problem)
  | .read start folder, P =>
    let r := (CutFiles.readCuts start).on { problem := P, folder }
    (.read r.1 r.2.folder, r.2.problem)

def perform : List (Task γ α) → Multistage α → List (Findings γ α) × Multistage α
  | [], P => ([], P)
  | task :: tasks, P =>
    let r := task.on P
    let rest := perform tasks r.2
    (r.1 :: rest.1, rest.2)

end

section

variable [Field α] [LinearOrder α] [Numeral α] {p p' P P' : Multistage α} {t k : ℕ} {m : Stage α}

inductive Handling : Multistage α → Multistage α → Prop
  | prepare (P : Multistage α) : Handling P (Multistage.prepare.on P).2
  | work {P P' : Multistage α} (h : Work P P') : Handling P P'

def Handled (P P' : Multistage α) : Prop := Relation.ReflTransGen Handling P P'

theorem Handled.kept {I : Multistage α → Prop} (hI : Multistage.Elementary I) (h : Handled P P')
    (hP : I P) : I P' := by
  induction h with
  | refl => exact hP
  | tail _ hstep ih =>
    cases hstep with
    | prepare => exact Keeps.iff_on.mp hI.prepare _ ih
    | work hwork => exact hI.work hwork ih

/-! ### States that cannot be reached, and those that can -/

variable [IsStrictOrderedRing α]

namespace Multistage

/-- A problem whose models are as they were written at states that cannot be reached. -/
def Vacant (P : Multistage α) : Prop :=
  ∀ t k m, k ∉ P.reachableStates t → P.stageAt t k = some m → m.Built

omit [Field α] [LinearOrder α] [IsStrictOrderedRing α] [Numeral α] in
theorem Vacant.spare (h : P.Vacant) : P.Spare := fun t k m hk hm => (h t k m hk hm).costToGo.2

theorem Written.vacant (hP : P.Written) (h : P.Vacant) (step : WriteStep α) :
    (step.after P).Vacant := by
  cases step with
  | chain matrices =>
    rcases setChain_on matrices P with ⟨e, hrun⟩ | ⟨chain, models, -, hmodels, hrun⟩
    · rw [WriteStep.after, WriteStep.run, hrun]
      exact h
    · rw [WriteStep.after, WriteStep.run, hrun]
      intro t k m _ hm
      obtain ⟨ms, hms, hm⟩ := stageAt_eq_some.mp hm
      exact built_of_newModels hmodels (List.mem_of_getElem? hms) (List.mem_of_getElem? hm)
  | measure choice stages =>
    exact Keeps.iff_on.mp (setMeasure_keeps (fun _ _ _ hP => hP) choice stages) P h
  | tail weight level => exact Keeps.iff_on.mp (setTail_keeps (fun _ _ _ hP => hP) weight level) P h
  | model t k step =>
    have hmodel (t k : ℕ) : Keeps Vacant (onModel t k step.run) := by
      refine Keeps.iff_on.mpr fun P hP => ?_
      rcases hm : P.stageAt t k with _ | m
      · rwa [onModel_on_none hm]
      · rw [onModel_on_some hm]
        intro t' k' M hk' hM
        rcases stageAt_put_cases hm hM with ⟨rfl, rfl, rfl⟩ | hM
        · exact (hP _ _ m hk' hm).after step
        · exact hP t' k' M hk' hM
    have hat : Keeps Vacant (onModelAt t k step.run : Run α (Multistage α) Unit) :=
      .get_bind fun P => .bind .ofExcept fun place => hmodel _ _
    exact Keeps.iff_on.mp hat P h
  | prepare =>
    have hidle : P.Idle (WriteStep.prepare.after P) :=
      (prepare_parallel hP.charted.start_mem.1 P P (.refl P)).2.left
    intro t k m hk hm
    rw [hidle.reachableStates_eq] at hk
    exact h t k m hk ((hidle.models t k hk).symm.trans hm)

theorem Written.vacant_write (hP : P.Written) (h : P.Vacant) (steps : List (WriteStep α)) :
    (Multistage.write steps P).Vacant := by
  induction steps generalizing P with
  | nil => exact h
  | cons step steps ih => exact ih (hP.after step) (hP.vacant h step)

/-- A state that can be reached, and whose model is joined to those of the stages before and after
it. -/
structure Ready (P : Multistage α) (t k : ℕ) : Prop where
  reachable : k ∈ P.reachableStates t
  model : ∃ m, P.stageAt t k = some m ∧ (t + 1 < P.horizon → m.Equipped) ∧ (0 < t → m.Fastened)

theorem Joined.ready (hp : p.Charted) (hjoined : p.Joined) (h : Handled p P)
    (hprepared : P.prepared = true) (hk : k ∈ p.reachableStates t) : P.Ready t k := by
  have hdraft := h.kept (draft_elementary p.draft) rfl
  have hcharted := Charted.of_draft hdraft hp
  have hreachable : k ∈ P.reachableStates t := by rwa [reachableStates_of_draft hdraft]
  obtain ⟨ht, hcount⟩ := hcharted.lt_counts hreachable
  obtain ⟨m, hm⟩ := hcharted.exists_stageAt.mpr hcount
  have hm' := (h.kept joined_elementary hjoined).joined hprepared t k m ht hreachable hm
  refine ⟨hreachable, m, hm, fun hbefore => hm'.equipped (decide_eq_true hbefore), fun hfirst => ?_⟩
  exact hm'.fastened (hm'.linked rfl) (decide_eq_false hfirst.ne')

/-- A problem that was written becomes joined when it is prepared, or it is never prepared. -/
theorem Written.ready (hp : p.Written) (hunprepared : p.prepared = false) (h : Handled p P)
    (hprepared : P.prepared = true) (hk : k ∈ p.reachableStates t) : P.Ready t k := by
  rcases hp.unprepared hunprepared with hloose | hjammed
  · exact hloose.joined.ready hp.charted h hprepared hk
  · have hP := h.kept jammed_elementary ⟨hp.charted, hjammed⟩
    cases hprepared.symm.trans hP.2.unprepared

variable [Source γ α]

/-- A walk that is guided by chance, or along a path of the problem, visits states that can be
reached. -/
theorem Charted.reachable_of_walk (hp : p.Charted) (hγ : Lawful γ) {guide : Guide γ α}
    (hguide : guide = Guide.random ∨ ∃ path ∈ p.paths, guide = Guide.along path) (lp : Solver α)
    (source : γ)
    {walk : Trajectory α} {x : Simulation γ α}
    (hwalk : (Multistage.walk lp guide).on { problem := p, source } = (.ok walk, x))
    {v : Visit α} (hv : walk[t]? = some v) :
    ∃ k : ℕ, v.markovState = .int k ∧ k ∈ p.reachableStates t := by
  have hguided : (Comparison.idle p p).Guided guide := by
    rcases hguide with rfl | ⟨path, hpath, rfl⟩
    · exact random_idle hp hγ
    · exact Comparison.Along.guided (((Parallel.refl p).paths hp).2 path hpath)
  obtain ⟨_, _, -, ⟨-, hfollows⟩, -⟩ := ((worksAlike_idle hp lp).toWalksAlike.walk hguided).of_ok
    (⟨.refl p, rfl⟩ : (Comparison.idle p p).Simulations { problem := p, source }
    { problem := p, source }) hwalk
  obtain ⟨k, hk, hstate⟩ := hfollows.step_of_getElem? hv
  exact ⟨k, hstate, by rwa [Nat.zero_add] at hk⟩

end Multistage

/-! ### Tasks and states that cannot be reached -/

variable [Source γ α] [Inference α]

omit [IsStrictOrderedRing α] in
theorem Task.handled (task : Task γ α) (P : Multistage α) : Handled P (task.on P).2 := by
  cases task with
  | prepare => exact Relation.ReflTransGen.single (.prepare P)
  | train lp o seed source record =>
    have hwork := Work.train lp o seed
      { simulation := { problem := P, source }, record, journal := [] }
    exact Relation.ReflTransGen.single (.work hwork)
  | evaluate lp o seed source evaluation =>
    have hwork := Work.evaluate lp o seed { evaluation, simulation := { problem := P, source } }
    exact Relation.ReflTransGen.single (.work hwork)
  | write start name author description folder =>
    have hproblem : ((Task.write start name author description folder : Task γ α).on P).2 =
        (Multistage.prepare.on P).2 :=
      CutFiles.writeCuts_problem start name author description { problem := P, folder }
    rw [hproblem]
    exact Relation.ReflTransGen.single (.prepare P)
  | read start folder =>
    exact Relation.ReflTransGen.single (.work (.read start { problem := P, folder }))

omit [IsStrictOrderedRing α] in
theorem handled_perform (tasks : List (Task γ α)) (P : Multistage α) :
    Handled P (perform tasks P).2 := by
  induction tasks generalizing P with
  | nil => exact Relation.ReflTransGen.refl
  | cons task tasks ih => exact Relation.ReflTransGen.trans (task.handled P) (ih _)

/-- No task tells apart problems that differ in states that cannot be reached, and none changes
their models. -/
theorem Task.parallel (hp : p.Charted) (hs : p.Spare) (hs' : p'.Spare) (hγ : Lawful γ)
    (task : Task γ α)
    (h : Parallel p p' P P') : (task.on P').1 = (task.on P).1 ∧
    Parallel p p' (task.on P).2 (task.on P').2 := by
  have hstart : 0 ∈ p.reachableStates 0 := hp.start_mem.1
  have hrandom : (Comparison.idle p p').Guided (Guide.random : Guide γ α) :=
    Multistage.random_idle hp hγ
  cases task with
  | prepare =>
    obtain ⟨hanswer, hP⟩ := Multistage.prepare_parallel hstart P P' h
    exact ⟨congrArg Findings.prepared hanswer.eq.symm, hP⟩
  | train lp o seed source record =>
    obtain ⟨hanswer, hx⟩ := Session.trainSeeded_alike (Multistage.worksAlike_idle hp lp) hrandom
      (TrainingPlan.Concurrent.refl o)
      seed { simulation := { problem := P, source }, record, journal := [] }
      { simulation := { problem := P', source }, record, journal := [] }
      ⟨⟨h, rfl⟩, (Record.seen_minimize _).symm⟩
    have hrecord := hx.record.trans (Record.seen_minimize _)
    exact ⟨by rw [Task.on, Task.on, hanswer.eq, hx.simulation.source, hrecord],
      hx.simulation.problem⟩
  | evaluate lp o seed source evaluation =>
    obtain ⟨hanswer, hx⟩ := Evaluation.runSeeded_alike
      (Multistage.worksAlike_idle hp lp).toWalksAlike hrandom o seed
      { evaluation, simulation := { problem := P, source } }
      { evaluation, simulation := { problem := P', source } }
      ⟨(Evaluation.seen_minimize _).symm, ⟨h, rfl⟩⟩
    have hevaluation := hx.evaluation.trans (Evaluation.seen_minimize _)
    exact ⟨by rw [Task.on, Task.on, hanswer.eq, hx.simulation.source, hevaluation],
      hx.simulation.problem⟩
  | write start name author description folder =>
    obtain ⟨hanswer, hx⟩ := CutFiles.writeCuts_desks hs hs' hstart start name author description
      { problem := P, folder }
      { problem := P', folder } ⟨h, rfl⟩
    exact ⟨by rw [Task.on, Task.on, hanswer.eq, hx.folder], hx.problem⟩
  | read start folder =>
    obtain ⟨hanswer, hx⟩ := CutFiles.readCuts_desks hs hs' hstart start { problem := P, folder }
      { problem := P', folder } ⟨h, rfl⟩
    exact ⟨by rw [Task.on, Task.on, hanswer.eq, hx.folder], hx.problem⟩

theorem perform_parallel (hp : p.Charted) (hs : p.Spare) (hs' : p'.Spare) (hγ : Lawful γ)
    (tasks : List (Task γ α)) (h : Parallel p p' P P') :
    (perform tasks P').1 = (perform tasks P).1 ∧
    Parallel p p' (perform tasks P).2 (perform tasks P').2 := by
  induction tasks generalizing P P' with
  | nil => exact ⟨rfl, h⟩
  | cons task tasks ih =>
    obtain ⟨hfirst, hP⟩ := task.parallel hp hs hs' hγ h
    obtain ⟨hrest, hend⟩ := ih hP
    exact ⟨congrArg₂ List.cons hfirst hrest, hend⟩

/-- A problem whose states that cannot be reached are inert: whatever tasks are done, their models
are as they were written, joined to no other model and never solved, and whatever models stood in
their places, the findings would be the same. Each visit is to a state that can be reached, and that
is ready to be visited. -/
structure Inert (γ : Type) [Source γ α] [Inference α] (p : Multistage α) : Prop where
  untouched : ∀ (tasks : List (Task γ α)) (t k : ℕ), k ∉ p.reachableStates t →
    (perform tasks p).2.stageAt t k = p.stageAt t k ∧ ∀ m, p.stageAt t k = some m → m.Alone
  unnoticed : ∀ p', p.Beside p' → p'.Spare → ∀ tasks : List (Task γ α),
    (perform tasks p').1 = (perform tasks p).1 ∧ (perform tasks p).2.Beside (perform tasks p').2
  ready : ∀ (tasks : List (Task γ α)) (P : Multistage α),
    Handled (perform tasks p).2 P → P.prepared = true →
    ∀ t k : ℕ, k ∈ p.reachableStates t → P.Ready t k
  visited : ∀ (tasks : List (Task γ α)) (P : Multistage α), Handled (perform tasks p).2 P →
    ∀ guide : Guide γ α, (guide = Guide.random ∨ ∃ path ∈ P.paths, guide = Guide.along path) →
    ∀ (lp : Solver α) (source : γ) (walk : Trajectory α) (x : Simulation γ α),
      (Multistage.walk lp guide).on { problem := P, source } = (.ok walk, x) →
    ∀ (t : ℕ) (v : Visit α), walk[t]? = some v →
      ∃ k : ℕ, v.markovState = .int k ∧ k ∈ p.reachableStates t

/-- Whatever calls a problem is written by, the states that cannot be reached are inert in it. -/
theorem inert_of_write (hγ : Lawful γ) {o : Outline α} {p : Multistage α}
    (hcreate : Multistage.create o = .ok p) {steps : List (WriteStep α)}
    (hunprepared : (Multistage.write steps p).prepared = false) :
    Inert γ (Multistage.write steps p) := by
  have hcreated := Multistage.written_of_create hcreate
  have hwritten := hcreated.write steps
  have hvacant := hcreated.vacant_write
    (fun t k m _ hm => (Multistage.loose_of_create hcreate).models t k m hm) steps
  have hp := hwritten.charted
  refine ⟨fun tasks t k hk => ⟨?_, fun m hm => (hvacant t k m hk hm).toAlone⟩,
    fun p' hp' hspare tasks => ?_,
    fun tasks P hP hprepared t k hk =>
    ?_, fun tasks P hP guide hguide lp source walk x hwalk t v hv => ?_⟩
  · exact (perform_parallel hp hvacant.spare hvacant.spare hγ tasks (.refl _)).2.left.models t k hk
  · obtain ⟨hfindings, hparallel⟩ := perform_parallel hp hvacant.spare hspare hγ tasks
      ⟨hp', .refl _, .refl _⟩
    exact ⟨hfindings, hparallel.beside⟩
  · exact hwritten.ready hunprepared ((handled_perform tasks _).trans hP) hprepared hk
  · have hdraft := Handled.kept (Multistage.draft_elementary _)
      ((handled_perform tasks _).trans hP) rfl
    obtain ⟨k, hstate, hk⟩ :=
      (Multistage.Charted.of_draft hdraft hp).reachable_of_walk hγ hguide lp source hwalk hv
    exact ⟨k, hstate, by rwa [Multistage.reachableStates_of_draft hdraft] at hk⟩

end

namespace Problems

/-- Two stages, the second of which has two Markov states. The second one is never drawn. -/
def forkSteps : List (WriteStep ℚ) :=
  [.chain (.list [.list [.list [.int 1]], .list [.list [.int 1, .int 0]]]), .model 0 0 storage,
    .model 1 0 storage,
    .model 1 1 storage]

end Problems

open Multistage in
theorem inert_fork : ∃ p : Multistage ℚ, create (Problems.outline (.int 2) (.int 0)) = .ok p ∧
    Inert (Tape ℚ) (write Problems.forkSteps p) ∧
    (write Problems.forkSteps p).reachableStates 1 = [0] ∧
    ((write Problems.forkSteps p).stageAt 1 1).map (fun m => m.columns.length) = some 2 ∧
    (prepare.on (write Problems.forkSteps p)).1.isOk = true := by
  have hfacts : ((create (Problems.outline (.int 2) (.int 0))).toOption.map fun p : Multistage ℚ =>
      ((write Problems.forkSteps p).prepared, (write Problems.forkSteps p).reachableStates 1,
        ((write Problems.forkSteps p).stageAt 1 1).map (fun m => m.columns.length),
        (prepare.on (write Problems.forkSteps p)).1.isOk)) = some (false, [0], some 2, true) := by
        decide +kernel
  obtain ⟨p, hp, hfacts⟩ := Option.map_eq_some_iff.mp hfacts
  have hcreate := ok_of_toOption hp
  obtain ⟨hunprepared, hreachable, hcolumns, hok⟩ : _ ∧ _ ∧ _ ∧ _ := by
    simpa only [Prod.mk.injEq] using hfacts
  exact ⟨p, hcreate, inert_of_write Tape.lawful hcreate hunprepared, hreachable, hcolumns, hok⟩

end Recourse
