import Recourse.Proofs.Crew
import Recourse.Proofs.Multistage.Paths
import Recourse.Proofs.Stage.Frame

/-! Sampling and enumeration agree. A walk that draws its way is the walk along the path that is
drawn, and whatever the source of randomness answers, that is one of the paths that are
enumerated. -/

namespace Recourse

open Run (Keeps Triple)
open Source (Lawful)

variable {α γ δ : Type}

namespace Multistage

variable [Scalar α] [Numeral α] {p P : Multistage α} {lp : Solver α}

def comesFrom (previous : Option (Visit α)) : ℤ :=
  (previous.bind fun v => v.markovState.int?).getD 0

def placeOf (v : Visit α) : Datum α × Datum α := (v.markovState, v.sample)

theorem walkFrom_along_places (lp : Solver α) (path : ScenarioPath) (n t : ℕ)
    (previous : Option (Visit α)) :
    Triple (fun _ => True) (walkFrom lp (Guide.along path : Guide δ α) n t previous)
      (fun x _ => x.map placeOf = ((path.drop t).take n).map Guide.place) fun _ => True := by
  induction n generalizing t previous with
  | zero => exact Triple.pure fun _ _ => by simp
  | succ n ih =>
    apply Triple.get_bind_any
    intro y
    have hguide : Triple (fun _ => True)
        (Simulation.onSource (Guide.along path y.problem t (comesFrom previous)))
        (fun place (_ : Simulation δ α) => ∃ step, path[t]? = some step ∧ place = Guide.place step)
        fun _ => True := by
      apply Triple.zoom_conseq (J := fun _ => True) (F := fun _ => True)
        (S := fun place _ => ∃ step, path[t]? = some step ∧ place = Guide.place step)
      · apply Triple.bind (Q := fun step _ => path[t]? = some step)
        · exact Triple.ofExcept (fun _ _ _ h => entryAt_ok h) fun _ _ => trivial
        · exact fun step => Triple.pure fun _ h => ⟨step, h, rfl⟩
      · exact fun _ _ => trivial
      · exact fun _ _ _ _ h => h
      · exact fun _ _ _ _ => trivial
    apply Triple.bind hguide
    rintro ⟨k, s⟩
    apply Triple.bind (Q := fun v _ => ∃ step, path[t]? = some step ∧ placeOf v = Guide.place step)
    · rintro z ⟨step, hstep, hplace⟩
      refine ⟨fun v z' h => ⟨step, hstep, ?_⟩, fun _ _ _ => trivial⟩
      have hvisit : (visit lp t k s previous).on z.problem = (.ok v, z'.problem) := by
        obtain ⟨hanswer, rfl⟩ := Prod.mk.inj h
        exact Prod.ext hanswer rfl
      obtain ⟨hk, hs⟩ := (visit_place lp t k s previous z.problem trivial).1 v _ hvisit
      rw [placeOf, hk, hs, hplace]
    intro v z hz
    refine ⟨fun x z' h => ?_, fun _ _ _ => trivial⟩
    obtain ⟨step, hstep, hplace⟩ := hz
    obtain ⟨rest, z₁, hrest, h⟩ := Run.exists_of_bind h
    cases h
    have hlater := (ih (t + 1) (some v) z trivial).1 rest _ hrest
    obtain ⟨ht, rfl⟩ := List.getElem?_eq_some_iff.mp hstep
    rw [List.drop_eq_getElem_cons ht, List.take_succ_cons, List.map_cons, List.map_cons,
      hlater, hplace]

theorem walkFrom_on {guide : Guide δ α} {n t : ℕ} {previous : Option (Visit α)} {source source' : δ}
    {k s : Datum α} (h : (guide P t (comesFrom previous)).on source = (.ok (k, s), source')) :
    (walkFrom lp guide (n + 1) t previous).on { problem := P, source } = (do
      let v ← Simulation.onProblem (visit lp t k s previous)
      let rest ← walkFrom lp guide n (t + 1) (some v)
      return v :: rest : Run α (Simulation δ α) (Trajectory α)).on
        { problem := P, source := source' } := by
  have hsource : (Simulation.onSource (guide P t (comesFrom previous))).on
      { problem := P, source } =
      (.ok (k, s), ({ problem := P, source := source' } : Simulation δ α)) := by
    rw [Simulation.onSource, Run.zoom_on, h]
  unfold comesFrom at hsource
  rw [walkFrom, Run.bind_ok _ (Run.get_on _)]
  dsimp only
  rw [Run.bind_ok _ hsource]

omit [Scalar α] [Numeral α] in
theorem onProblem_on {β : Type} (act : Run α (Multistage α) β) (P : Multistage α) (source : δ) :
    (Simulation.onProblem act).on ({ problem := P, source } : Simulation δ α) =
      ((act.on P).1, { problem := (act.on P).2, source }) := rfl

omit [Scalar α] [Numeral α] in
/-- If what comes after a visit differs in its source only, then so does all of it. -/
theorem exists_cons_on {walk : Run α (Simulation γ α) (Trajectory α)}
    {walk' : Run α (Simulation δ α) (Trajectory α)} {x : Simulation γ α} {y : Simulation δ α}
    (v : Visit α)
    (h : ∃ g : γ, walk.on x =
      ((walk'.on y).1, { problem := (walk'.on y).2.problem, source := g })) :
    ∃ g : γ, (do let rest ← walk; return v :: rest : Run α (Simulation γ α) (Trajectory α)).on x =
      let walked :=
        (do let rest ← walk'; return v :: rest : Run α (Simulation δ α) (Trajectory α)).on y
      (walked.1, { problem := walked.2.problem, source := g }) := by
  obtain ⟨g, hg⟩ := h
  rcases hwalked : walk'.on y with ⟨e | rest, z⟩
  · rw [hwalked] at hg
    rw [Run.bind_error _ hg, Run.bind_error _ hwalked]
    exact ⟨g, rfl⟩
  · rw [hwalked] at hg
    rw [Run.bind_ok _ hg, Run.bind_ok _ hwalked]
    exact ⟨g, rfl⟩

variable [Source γ α]

/-- A walk that draws its way is the walk along the path that is drawn, as far as it goes. What a
source would answer after a failure is not asked for. -/
theorem walkFrom_random (lp : Solver α) {n t : ℕ} {previous : Option (Visit α)}
    {before path : ScenarioPath} {g g' : γ} (hP : P.skeleton = p.skeleton)
    (hbefore : before.length = t)
    (h : (p.drawFrom n t (comesFrom previous)).on g = (.ok path, g')) (source : δ) :
    ∃ g'' : γ, (walkFrom lp Guide.random n t previous).on { problem := P, source := g } =
      let walked := (walkFrom lp (Guide.along (before ++ path)) n t previous).on
        { problem := P, source }
      (walked.1, { problem := walked.2.problem, source := g'' }) := by
  induction n generalizing t previous before path g g' P with
  | zero => exact ⟨g, rfl⟩
  | succ n ih =>
    obtain ⟨step, g₁, hstep, h⟩ := Run.exists_of_bind h
    obtain ⟨later, g₂, hlater, h⟩ := Run.exists_of_bind h
    obtain rfl := Except.ok.inj (congrArg Prod.fst h)
    have hentry : (entryAt (before ++ step :: later) t : Except (Fault α) _) = .ok step := by
      simp [entryAt, ← hbefore]
    have hdraw : (p.drawStage t (comesFrom previous) : Run α γ _) = P.drawStage t
        (comesFrom previous) :=
      eq_of_skeleton (fun p => (p.drawStage t (comesFrom previous) : Run α γ _))
        (fun p => p.drawStage_skeleton _ _) hP.symm
    rw [hdraw] at hstep
    have hrandom : ((Guide.random : Guide γ α) P t (comesFrom previous)).on g =
        (.ok (.int step.1, .int step.2), g₁) := by
      rw [Guide.random, Run.bind_ok _ hstep]
      rfl
    have halong : ((Guide.along (before ++ step :: later) : Guide δ α) P t
        (comesFrom previous)).on source =
        (.ok (.int step.1, .int step.2), source) := by
      rw [Guide.along, hentry]
      rfl
    rw [walkFrom_on hrandom, walkFrom_on halong]
    have hskeleton := Keeps.iff_on.mp
      (visit_skeleton lp t (.int step.1) (.int step.2) previous p.skeleton) P hP
    have hplace := (visit_place lp t (.int step.1) (.int step.2) previous P trivial).1
    have hvisit := onProblem_on (visit lp t (.int step.1) (.int step.2) previous) P source
    have hvisit' := onProblem_on (visit lp t (.int step.1) (.int step.2) previous) P g₁
    rcases hrun : (visit lp t (.int step.1) (.int step.2) previous).on P with ⟨e | v, P'⟩ <;>
      rw [hrun] at hvisit hvisit' hskeleton
    · rw [Run.bind_error _ hvisit', Run.bind_error _ hvisit]
      exact ⟨g₁, rfl⟩
    · rw [Run.bind_ok _ hvisit', Run.bind_ok _ hvisit]
      have hcomes : comesFrom (some v) = step.1 := by
        rw [comesFrom, Option.bind_some, (hplace v P' hrun).1]
        rfl
      have hlength : (before ++ [step]).length = t + 1 := by simp [hbefore]
      have hrest := ih hskeleton hlength (hcomes ▸ hlater)
      rw [List.append_assoc, List.singleton_append] at hrest
      exact exists_cons_on v hrest

/-- A walk at random is the walk along the path that is drawn. -/
theorem walk_random (lp : Solver α) {path : ScenarioPath} {g g' : γ}
    (h : p.drawPath.on g = (.ok path, g')) (source : δ) : ∃ g'' :
    γ, (walk lp Guide.random).on { problem := p, source := g } =
      let walked := (walk lp (Guide.along path)).on { problem := p, source }
      (walked.1, { problem := walked.2.problem, source := g'' }) := by
  rw [walk, Run.bind_ok _ (Run.get_on _), walk, Run.bind_ok _ (Run.get_on _)]
  have hpath : (p.drawFrom p.horizon 0 (comesFrom (none : Option (Visit α)))).on g =
      (.ok path, g') := h
  exact walkFrom_random lp rfl List.length_nil hpath source

end Multistage

/-! ### The paths of an evaluation -/

namespace Evaluation

variable [Scalar α] [Numeral α]

/-- An evaluation of all paths takes down the paths and their number. -/
theorem begin_exhaustive {o : EvaluationPlan α} (ho : o.isExhaustive = true) (x : Assessment γ α) :
    ((begin o).on x).2.evaluation.paths = some x.simulation.problem.paths ∧
      ((begin o).on x).2.evaluation.pathCount = .int x.simulation.problem.paths.length := by
  rw [begin, Run.bind_ok _ (Run.get_on x)]
  simp only [ho, if_true]
  exact ⟨rfl, rfl⟩

end Evaluation

/-- The paths that are enumerated are those that can be drawn, each of them once, and their number
is taken down. A source that keeps to its ranges always draws one of them, and the walk at random
goes along the path that it draws: if it comes to its end, its visits were at the path's Markov
states and samples, and so are those of any other walk along the path. -/
theorem Multistage.Charted.paths_drawn [Field α] [LinearOrder α] [IsStrictOrderedRing α] [Numeral α]
    {p : Multistage α} (hp : p.Charted) (hs : p.Stochastic) :
    (∀ path, path ∈ p.paths ↔ ∃ tape tape' : Tape α, p.drawPath.on tape = (.ok path, tape')) ∧
    p.paths.Nodup ∧
    (∀ (γ : Type) (o : EvaluationPlan α) (x : Assessment γ α),
      x.simulation.problem = p → o.isExhaustive = true →
      ((Evaluation.begin o).on x).2.evaluation.paths = some p.paths ∧
        ((Evaluation.begin o).on x).2.evaluation.pathCount = .int p.paths.length) ∧
    ∀ (γ : Type) [Source γ α], Lawful γ →
      ∀ g : γ, ∃ path ∈ p.paths, ∃ g', p.drawPath.on g = (.ok path, g') ∧
      ∀ lp : Solver α,
        (∃ g'', (walk lp Guide.random).on { problem := p, source := g } =
          let walked := (walk lp (Guide.along path)).on { problem := p, source := () }
          (walked.1, { problem := walked.2.problem, source := g'' })) ∧
        (∀ x y, (walk lp Guide.random).on { problem := p, source := g } = (.ok x, y) →
          x.map placeOf = path.map Guide.place) ∧
        ∀ (δ : Type) (source : δ) x y,
        (walk lp (Guide.along path)).on { problem := p, source } = (.ok x, y) →
          x.map placeOf = path.map Guide.place := by
  refine ⟨fun path => hp.mem_paths_iff hs, hp.nodup_paths, ?_, ?_⟩
  · rintro γ o x rfl ho
    exact Evaluation.begin_exhaustive ho x
  · intro γ _ hg g
    obtain ⟨path, hpath, g', hdraw⟩ := hp.exists_drawPath hs hg g
    refine ⟨path, hpath, g', hdraw, fun lp => ?_⟩
    have hlength : path.length = p.horizon := hp.length_of_mem_paths hpath
    have hplaces {δ : Type} (source : δ) (x : Trajectory α) (y : Simulation δ α)
        (h : (walk lp (Guide.along path)).on { problem := p, source } = (.ok x, y)) :
        x.map placeOf = path.map Guide.place := by
      have hwalk := (walkFrom_along_places lp path p.horizon 0 none
        { problem := p, source } trivial).1 x y h
      rwa [List.drop_zero, List.take_of_length_le hlength.le] at hwalk
    obtain ⟨g'', hrandom⟩ := walk_random lp hdraw ()
    refine ⟨⟨g'', hrandom⟩, fun x y h => ?_, fun δ source => hplaces source⟩
    have hanswer : ((walk lp (Guide.along path)).on { problem := p, source := () }).1 = .ok x :=
      congrArg Prod.fst (hrandom.symm.trans h)
    exact hplaces () x _ (Prod.ext hanswer rfl)

theorem Problems.shortage_charted : shortage.Charted where
  chain := .inl ⟨2, rfl⟩
  horizon := by decide
  stages := rfl
  models := rfl

open Problems in
theorem Multistage.Charted.paths_drawn_shortage :
    shortage.paths = [[(0, 0), (0, 0)], [(0, 0), (0, 1)]] ∧ shortage.paths.Nodup ∧
    (∃ tape tape' : Tape ℚ, shortage.drawPath.on tape = (.ok [(0, 0), (0, 1)], tape')) ∧
    ¬ ∃ tape tape' : Tape ℚ, shortage.drawPath.on tape = (.ok [(0, 0), (0, 2)], tape') :=
  have hdrawn := Multistage.Charted.paths_drawn shortage_charted shortage_stochastic
  ⟨by decide +kernel, hdrawn.2.1, (hdrawn.1 _).mp (by decide +kernel),
  fun h => absurd ((hdrawn.1 _).mpr h) (by decide +kernel)⟩

end Recourse
