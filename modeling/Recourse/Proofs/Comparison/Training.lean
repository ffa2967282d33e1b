import Recourse.Proofs.Comparison.Evaluation

/-! Training on problems that are like each other. Runs of one plan, but for the time that their
work takes, make the same decisions: their bounds are the same as each side sees them, and they end
alike. -/

namespace Recourse

open Run (Alike Coupled)

variable {γ α β : Type}

def Record.open (r : Record α) : Record α := { r with ending := none }

section

variable [Scalar α] (side : Sense)

def Record.seen (r : Record α) : Record α :=
  { r with bounds := r.bounds.map side.orient, values := r.values.map (List.map side.orient) }

theorem Record.seen_minimize (r : Record α) : r.seen .minimize = r := by
  have horient : Sense.orient (α := α) .minimize = id := rfl
  simp only [seen, horient, List.map_id_fun, id_eq]

end

/-- Sessions on problems in relation, with the same source and with records that differ, as each
side sees them, in the ending at most. The journals may be different. -/
structure Comparison.Sessions [Scalar α] (C : Comparison α) (x y : Session γ α) : Prop where
  simulation : C.Simulations x.simulation y.simulation
  record : y.record.open = x.record.open.seen C.side

/-! ### Counting iterations -/

section

variable [Scalar α] [Numeral α]

namespace TrainingPlan

/-- A plan without what concerns its length: the limits of iterations and of time, and how long work
takes. -/
def core (o : TrainingPlan α) : TrainingPlan α :=
  { o with maxIterations := .null, maxTime := .null, duration := fun _ => 0 }

def elapsed (o : TrainingPlan α) : ℕ → α
  | 0 => 0
  | n + 1 => o.elapsed n + o.duration n

/-- Two plans that differ in what is timed, but are overdue after the same spans of work. -/
structure Concurrent (o o' : TrainingPlan α) : Prop where
  core : o.core = o'.core
  limit : o.maxIterations = o'.maxIterations
  overdue : ∀ n, o.isOverdue (o.elapsed n) = o'.isOverdue (o'.elapsed n)

theorem Concurrent.refl (o : TrainingPlan α) : o.Concurrent o := ⟨rfl, rfl, fun _ => rfl⟩

end TrainingPlan

namespace Standing

def counted (g : Standing α) (o : TrainingPlan α) (bound : α) (stable stopping : Bool) :
    Standing α :=
  { done := g.done + 1, stable := if stable then g.stable + 1 else 0, previous := some bound
    seconds := g.seconds + o.duration g.spans, spans := g.spans + 1
    stopping := g.stopping || stopping }

variable {side : Sense} {g g' : Standing α} {o o' : TrainingPlan α}

theorem isStable_seen (hside : side.IsSymmetry α) (hg : g'.previous = g.previous.map side.orient)
    (tolerance : Datum α) (bound : α) :
    g'.isStable tolerance (side.orient bound) = g.isStable tolerance bound := by
  unfold isStable
  rw [hg]
  cases g.previous with
  | none => rfl
  | some b => simp only [Option.map_some, hside.magnitude, hside.change]

/-- Where the bounds before are the same, the new one is stable in both runs or in none. -/
theorem advance_alike (hside : side.IsSymmetry α) (hg : g'.previous = g.previous.map side.orient)
    (tolerance : Datum α) (bound : α) :
    Alike (fun k k' => ∃ stable : Bool,
        k = { g with stable := if stable then g.stable + 1 else 0, previous := some bound } ∧
        k' = { g' with
          stable := if stable then g'.stable + 1 else 0, previous := some (side.orient bound) })
      (g.advance tolerance bound) (g'.advance tolerance (side.orient bound)) := by
  rw [advance, advance, isStable_seen hside hg]
  rcases g.isStable tolerance bound with e | stable
  · exact .error e
  · exact .ok ⟨stable, rfl, rfl⟩

inductive CountedAlike (side : Sense) (o o' : TrainingPlan α) (g g' : Standing α) :
    α × Standing α → α × Standing α → Prop
  | counted (bound : α) (stable stopping : Bool) : CountedAlike side o o' g g'
      (bound, g.counted o bound stable stopping)
      (side.orient bound, g'.counted o' (side.orient bound) stable stopping)

inductive ReviewedAlike (o o' : TrainingPlan α) (g g' : Standing α) :
    Bool × Standing α → Bool × Standing α → Prop
  | skipped (good : Bool) : ReviewedAlike o o' g g' (good, g) (good, g')
  | made (good : Bool) : ReviewedAlike o o' g g'
      (good, g.spend (o.duration g.spans)) (good, g'.spend (o'.duration g'.spans))

structure Abreast (side : Sense) (o o' : TrainingPlan α) (g g' : Standing α) : Prop where
  done : g'.done = g.done
  stable : g'.stable = g.stable
  previous : g'.previous = g.previous.map side.orient
  spans : g'.spans = g.spans
  stopping : g'.stopping = g.stopping
  clock : g.seconds = o.elapsed g.spans
  clock' : g'.seconds = o'.elapsed g'.spans

omit [Numeral α] in
theorem Abreast.counted (h : Abreast side o o' g g') (bound : α) (stable stopping : Bool) :
    Abreast side o o' (g.counted o bound stable stopping)
      (g'.counted o' (side.orient bound) stable stopping) where
  done := congrArg (· + 1) h.done
  stable := by simp only [Standing.counted, h.stable]
  previous := rfl
  spans := congrArg (· + 1) h.spans
  stopping := congrArg (· || stopping) h.stopping
  clock := congrArg (· + o.duration g.spans) h.clock
  clock' := congrArg (· + o'.duration g'.spans) h.clock'

omit [Numeral α] in
theorem Abreast.spend (h : Abreast side o o' g g') :
    Abreast side o o' (g.spend (o.duration g.spans)) (g'.spend (o'.duration g'.spans)) where
  done := h.done
  stable := h.stable
  previous := h.previous
  spans := congrArg (· + 1) h.spans
  stopping := h.stopping
  clock := congrArg (· + o.duration g.spans) h.clock
  clock' := congrArg (· + o'.duration g'.spans) h.clock'

end Standing

end

/-! ### Sessions side by side -/

namespace Session

section

variable [Scalar α] {C : Comparison α} {A : β → β → Prop}

theorem onProblem_alike {act act' : Run α (Multistage α) β} (h : Coupled C.related act act' A) :
    Coupled (C.Sessions (γ := γ)) (onProblem act) (onProblem act') A :=
  (Simulation.onProblem_alike h).zoom (fun _ _ hxy => hxy.simulation) fun _ _ _ _ hxy hs =>
    ⟨hs, hxy.record⟩

theorem onSource_alike (act : Run α γ β) : Coupled C.Sessions (onSource act) (onSource act) Eq :=
  (Simulation.onSource_alike Coupled.refl).zoom (fun _ _ hxy => hxy.simulation)
    fun _ _ _ _ hxy hs => ⟨hs, hxy.record⟩

theorem restart_alike : Coupled (C.Sessions (γ := γ)) restart restart Eq :=
  Coupled.modify fun _ _ hxy => ⟨hxy.simulation, hxy.record⟩

theorem tell_alike (note note' : Note α) :
    Coupled (C.Sessions (γ := γ)) (tell note) (tell note') Eq :=
  Coupled.modify fun _ _ hxy => ⟨hxy.simulation, hxy.record⟩

theorem update_alike {change change' : Record α → Record α}
    (hchange : ∀ r r' : Record α, r'.open = r.open.seen C.side →
      (change' r').open = (change r).open.seen C.side) :
    Coupled (C.Sessions (γ := γ)) (update change) (update change') Eq :=
  Coupled.modify fun _ _ hxy => ⟨hxy.simulation, hchange _ _ hxy.record⟩

variable [Numeral α]

theorem setUp_alike {o o' : TrainingPlan α} (hsteps : o'.steps = o.steps)
    (hworkers : o'.workers = o.workers) :
    Coupled (C.Sessions (γ := γ)) (setUp o) (setUp o') Eq := by
  unfold setUp
  rw [hsteps, hworkers]
  refine Coupled.bind_same (update_alike fun r r' hr => ?_) fun _ =>
    (Coupled.ofExcept_eq rfl).bind_same fun workers =>
    update_alike fun r r' hr => ?_
  · exact congrArg (fun r : Record α => { r with steps := o.steps }) hr
  · exact congrArg (fun r : Record α => { r with workers }) hr

end

variable [Scalar α] [Numeral α] {C : Comparison α} {lp lp' : Solver α} (h : C.WorksAlike lp lp')
include h

theorem keep_alike (bound : α) (values : List α) (signal : Signal) :
    Coupled (C.Sessions (γ := γ)) (keep bound values signal)
      (keep (C.side.orient bound) (values.map C.side.orient) signal) Eq := by
  apply Coupled.bind_same (update_alike fun r r' hr => ?hbounds)
  case hbounds =>
    have hkept :=
      congrArg (fun r : Record α => { r with bounds := r.bounds ++ [C.side.orient bound] }) hr
    refine Eq.trans hkept ?_
    simp only [Record.seen, Record.open, List.map_append, List.map_cons, List.map_nil]
  intro _
  refine Coupled.breakOff.bind_same fun _ => Coupled.bind_same (onProblem_alike ?_) fun _ => ?_
  · exact Coupled.modify fun P P' hP => h.bounded P P' hP (some bound)
  refine Coupled.breakOff.bind_same fun _ =>
    Coupled.bind_same (update_alike fun r r' hr => ?_) fun _ => .breakOff
  have hkept := congrArg
    (fun r : Record α => { r with values := r.values ++ [values.map C.side.orient] }) hr
  refine Eq.trans hkept ?_
  simp only [Record.seen, Record.open, List.map_append, List.map_cons, List.map_nil]

variable [Source γ α] (hrandom : C.Guided (Guide.random : Guide γ α))
include hrandom

theorem improve_alike {o o' : TrainingPlan α} (hsteps : o'.steps = o.steps) (signal : Signal) :
    Coupled (C.Sessions (γ := γ)) (improve lp o signal) (improve lp' o' signal)
      fun r r' => r' = (C.side.orient r.1, r.2.map C.side.orient) := by
  refine (onSource_alike _).bind_same fun seed => Coupled.get_bind fun x y hxy => ?_
  have hworkers : y.record.workers = x.record.workers := (congrArg Record.workers hxy.record :)
  dsimp only
  rw [hsteps, hworkers]
  refine (onProblem_alike (h.walkJobs (fun _ => hrandom) seed _ _ _)).bind_map fun walks => ?_
  refine (onProblem_alike (h.refineAll walks signal.passes?)).bind_same fun _ => ?_
  refine (onProblem_alike h.computeBound).bind_map fun bound =>
    Coupled.breakOff.bind_same fun _ => .pure (Prod.ext rfl ?_)
  change (walks.map _).map Trajectory.value = (walks.map Trajectory.value).map C.side.orient
  rw [List.map_map, List.map_map]
  exact List.map_congr_left fun walk _ => Trajectory.value_seen C.side h.symmetry walk

variable [Inference α]

omit h in
theorem evaluate_alike (h : C.WalksAlike lp lp') (o : EvaluationPlan α) (limit : Option ℕ) :
    Coupled (C.Sessions (γ := γ)) (evaluate lp o limit) (evaluate lp' o limit)
      fun e e' => e' = e.seen C.side := by
  intro x y hxy
  have hnew : Evaluation.new y.simulation.problem =
      (Evaluation.new x.simulation.problem).seen C.side := by
    rw [Evaluation.new, h.lastBound _ _ hxy.simulation.problem]
    rfl
  obtain ⟨hanswer, hrun⟩ := Evaluation.run_alike h hrandom o limit
    { evaluation := Evaluation.new x.simulation.problem, simulation := x.simulation }
    { evaluation := Evaluation.new y.simulation.problem, simulation := y.simulation }
    ⟨⟨hnew, hxy.simulation⟩, nofun⟩
  exact ⟨hanswer.map fun _ _ _ => hrun.evaluation, hrun.simulation, hxy.record⟩

omit h hrandom [Numeral α] [Source γ α] [Inference α] in
theorem figureOf_alike (side : Sense) (e : Evaluation α) :
    Alike (fun _ _ => True) (figureOf e) (figureOf (e.seen side)) := by
  obtain ⟨bound, values, interval, exact, gap, count, paths⟩ := e
  rcases interval with _ | ⟨low, high⟩
  · cases exact
    · rcases values with _ | _ | _
      · exact .error _
      · exact .error _
      · exact .ok trivial
    · exact .ok trivial
  · cases side <;> exact .ok trivial

omit h hrandom [Source γ α] in
theorem figure_alike (hside : C.side.IsSymmetry α) (o : TrainingPlan α) (values : List α) :
    Alike (fun _ _ => True) (figure o values) (figure o (values.map C.side.orient)) := by
  unfold figure
  rcases o.steps.exceeds (.int 1) with e | exceeds
  · exact .error e
  · cases exceeds with
    | true =>
      change Alike _ (Evaluation.intervalOf values o.percentile >>= _)
        (Evaluation.intervalOf _ o.percentile >>= _)
      rw [Evaluation.intervalOf_seen hside]
      cases Evaluation.intervalOf values o.percentile with
      | error e => exact .error e
      | ok I => exact .ok trivial
    | false =>
      cases values with
      | nil => exact .error _
      | cons x values => exact .ok trivial

variable {o o' : TrainingPlan α} (hcore : o.core = o'.core) {g g' : Standing α}
include hcore

theorem count_alike (hg : g'.previous = g.previous.map C.side.orient) (signal : Signal) :
    Coupled (C.Sessions (γ := γ)) (count lp o g signal) (count lp' o' g' signal)
      (Standing.CountedAlike C.side o o' g g') := by
  have hsteps : o'.steps = o.steps := (congrArg TrainingPlan.steps hcore.symm :)
  have hfigure (values : List α) : figure o values = figure o' values :=
    (congrArg (fun o => Session.figure o values) hcore :)
  have htolerance : o.stableTolerance = o'.stableTolerance :=
    (congrArg TrainingPlan.stableTolerance hcore :)
  refine (improve_alike h hrandom hsteps signal).bind_map fun r => ?_
  refine (keep_alike h r.1 r.2 signal).bind_same fun _ => ?_
  rw [hfigure]
  refine (Coupled.ofExcept (figure_alike h.symmetry o' r.2)).bind fun figure figure' _ => ?_
  rw [htolerance]
  refine (Coupled.ofExcept (Standing.advance_alike h.symmetry hg _ r.1)).bind ?_
  rintro _ _ ⟨stable, rfl, rfl⟩
  refine (update_alike fun r r' hr => ?_).bind_same fun _ =>
    Coupled.breakOff.bind_same fun _ => Coupled.get_bind fun x y _ => ?_
  · exact (congrArg (fun r : Record α => { r with iteration := r.iteration + 1 }) hr :)
  · exact (tell_alike _ _).bind_same fun _ =>
      Coupled.breakOff.bind_same fun _ => .pure (.counted r.1 stable _)

theorem review_alike (g g' : Standing α) (bound bound' : α) (signal : Signal) :
    Coupled (C.Sessions (γ := γ)) (review lp o bound g signal) (review lp' o' bound' g' signal)
      (Standing.ReviewedAlike o o' g g') := by
  have hdue : o.isDue = o'.isDue := (congrArg TrainingPlan.isDue hcore :)
  have hplan : o.evaluationPlan = o'.evaluationPlan :=
    (congrArg TrainingPlan.evaluationPlan hcore :)
  have htolerance : o.tolerance = o'.tolerance := (congrArg TrainingPlan.tolerance hcore :)
  refine Coupled.get_bind fun x y hxy => ?_
  have hiteration : y.record.iteration = x.record.iteration :=
    (congrArg Record.iteration hxy.record :)
  dsimp only
  rw [hiteration, hdue]
  refine (Coupled.ofExcept_eq rfl).bind_same fun due => .ite (.pure (.skipped false)) ?_
  refine Coupled.get_bind fun x y hxy => ?_
  have hworkers : y.record.workers = x.record.workers := (congrArg Record.workers hxy.record :)
  rw [hworkers, hplan]
  refine (evaluate_alike hrandom h.toWalksAlike _ _).bind_map fun e => ?_
  refine (Coupled.ofExcept (figureOf_alike C.side e)).bind fun figure figure' _ => ?_
  have hgap : (e.seen C.side).gap = e.gap := rfl
  rw [hgap]
  cases e.gap with
  | none => exact .throw
  | some gap =>
    refine (tell_alike _ _).bind_same fun _ =>
      Coupled.breakOff.bind_same fun _ => Coupled.get_bind fun x y hxy => ?_
    rw [Evaluation.converged_seen h.symmetry (h.riskAverse _ _ hxy.simulation.problem), htolerance]
    exact (Coupled.ofExcept_eq rfl).bind_same fun good => .pure (.made good)

omit hrandom [Source γ α] [Inference α] in
theorem outset_alike : Coupled (C.Sessions (γ := γ)) (outset o) (outset o') fun g g' =>
    ∃ r r' : Record α, r'.bounds = r.bounds.map C.side.orient ∧ g = .start r ∧ g' = .start r' := by
  have hevaluations : o.hasEvaluations = o'.hasEvaluations :=
    (congrArg TrainingPlan.hasEvaluations hcore :)
  have hsteps : o'.steps = o.steps := (congrArg TrainingPlan.steps hcore.symm :)
  have hworkers : o'.workers = o.workers := (congrArg TrainingPlan.workers hcore.symm :)
  refine (onProblem_alike h.prepare).bind_same fun _ => restart_alike.bind_same fun _ => ?_
  refine (setUp_alike hsteps hworkers).bind_same fun _ => Coupled.get_bind fun x y hxy => ?_
  have hbounds : y.record.bounds = x.record.bounds.map C.side.orient :=
    (congrArg Record.bounds hxy.record :)
  refine (tell_alike _ _).bind_same fun _ => ?_
  rw [hevaluations]
  exact .ite ((tell_alike _ _).bind_same fun _ => .pure ⟨_, _, hbounds, rfl, rfl⟩)
    (.pure ⟨_, _, hbounds, rfl, rfl⟩)

omit h hrandom [Numeral α] [Source γ α] [Inference α] in
theorem conclude_alike (ending : Ending) :
    Coupled (C.Sessions (γ := γ)) (conclude o ending) (conclude o' ending) Eq := by
  have hevaluations : o.hasEvaluations = o'.hasEvaluations :=
    (congrArg TrainingPlan.hasEvaluations hcore :)
  refine Coupled.bind_same (update_alike fun r r' hr => ?_) fun _ =>
    (tell_alike _ _).bind_same fun _ => ?_
  · exact hr
  rw [hevaluations]
  exact .ite ((tell_alike _ _).bind_same fun _ => .pure rfl) (.pure rfl)

omit hcore

/-! ### Whole runs -/

variable (ho : o.Concurrent o')
include ho

theorem proceed_alike (hg : g.Abreast C.side o o' g') (signal : Signal) :
    Coupled (C.Sessions (γ := γ)) (proceed lp o g signal) (proceed lp' o' g' signal) fun r r' =>
      r'.1 = r.1 ∧ r.2.Abreast C.side o o' r'.2 := by
  have hmax : o.maxStable = o'.maxStable := (congrArg TrainingPlan.maxStable ho.core :)
  refine (count_alike h hrandom ho.core hg.previous signal).bind fun r r' hr => ?_
  obtain ⟨bound, stable, stopping⟩ := hr
  have hcounted := hg.counted bound stable stopping
  dsimp only
  rw [hmax, hcounted.stable]
  refine (Coupled.ofExcept_eq rfl).bind_same fun converged => .ite (.pure ⟨rfl, hcounted⟩) ?_
  refine (review_alike h hrandom ho.core _ _ bound _ signal).bind fun r r' hr => ?_
  cases hr with
  | skipped => exact .pure ⟨rfl, hcounted⟩
  | made => exact .pure ⟨rfl, hcounted.spend⟩

theorem iteration_alike (hg : g.Abreast C.side o o' g') (signal : Signal) :
    Coupled (C.Sessions (γ := γ)) (iteration lp o g signal) (iteration lp' o' g' signal)
      fun r r' => r'.1 = r.1 ∧ r.2.Abreast C.side o o' r'.2 :=
  (proceed_alike h hrandom ho hg signal).interruptible ⟨rfl, hg⟩

theorem iterate_alike (n : ℕ) (hg : g.Abreast C.side o o' g') :
    Coupled (C.Sessions (γ := γ)) (iterate lp o n g) (iterate lp' o' n g') Eq := by
  induction n generalizing g g' with
  | zero => exact .pure rfl
  | succ n ih =>
    have hexhausted : o.isExhausted g.done = o'.isExhausted g'.done := by
      rw [TrainingPlan.isExhausted, TrainingPlan.isExhausted, ho.limit, hg.done]
    have hoverdue : o.isOverdue g.seconds = o'.isOverdue g'.seconds := by
      rw [hg.clock, hg.clock', hg.spans, ho.overdue]
    have hsignal : o.signal = o'.signal := (congrArg TrainingPlan.signal ho.core :)
    rw [iterate, iterate, hexhausted, hoverdue, hg.stopping, hsignal]
    apply Coupled.get_bind
    intro x y hxy
    have hiteration : y.record.iteration = x.record.iteration :=
      (congrArg Record.iteration hxy.record :)
    dsimp only
    rw [hiteration]
    apply Coupled.ite (.pure rfl)
    refine (Coupled.ofExcept_eq rfl).bind_same fun exhausted => .ite (.pure rfl) ?_
    refine (Coupled.ofExcept_eq rfl).bind_same fun overdue => .ite (.pure rfl) (.ite (.pure rfl) ?_)
    refine (iteration_alike h hrandom ho hg _).bind ?_
    rintro ⟨_, k⟩ ⟨ending, k'⟩ ⟨rfl, hk⟩
    cases ending with
    | none => exact ih hk
    | some ending => exact .pure rfl

theorem train_alike : Coupled (C.Sessions (γ := γ)) (train lp o) (train lp' o') Eq := by
  have hbound : o.iterationBound = o'.iterationBound := by
    rw [TrainingPlan.iterationBound, TrainingPlan.iterationBound, ho.limit]
  rw [train, train, hbound]
  refine (outset_alike h ho.core).bind ?_
  rintro _ _ ⟨r, r', hr, rfl, rfl⟩
  have hstart : (Standing.start r).Abreast C.side o o' (Standing.start r') :=
    ⟨rfl, rfl, by simp [Standing.start, hr], rfl, rfl, rfl, rfl⟩
  exact (iterate_alike h hrandom ho _ hstart).bind_same fun ending => conclude_alike ho.core ending

theorem trainSeeded_alike (seed : Datum α) :
    Coupled (C.Sessions (γ := γ)) (trainSeeded lp o seed) (trainSeeded lp' o' seed) Eq := by
  have htrain := train_alike (γ := γ) h hrandom ho
  refine restart_alike.bind_same fun _ =>
    (onProblem_alike h.prepare).bind_same fun _ => .ite ?_ htrain
  refine (Coupled.ofExcept_eq rfl).bind_same fun source =>
    Coupled.bind_same (Coupled.modify fun x y hxy => ?_) fun _ => htrain
  exact ⟨⟨hxy.simulation.problem, rfl⟩, hxy.record⟩

end Session

end Recourse
