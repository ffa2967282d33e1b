import Recourse.Proofs.Multistage.Draft
import Recourse.Proofs.Multistage.Independence
import Recourse.Proofs.Sampling
import Recourse.Proofs.Schedule

/-! Evaluating all paths. Each path is worth the value of the walk along it, whatever was walked
before and whoever walks it. So the values come in the order of the paths however the jobs are
split, and weighing them gives the nested expectation of what a path is worth. -/

namespace Recourse

open Run (Coupled Keeps Triple)

variable {α γ : Type}

section

variable [Scalar α] [Numeral α] {P₀ P Q : Multistage α} {lp : Solver α}
  {path : ScenarioPath} {v : α}

/-! ### Walks along paths -/

namespace Multistage

def worth (P : Multistage α) (lp : Solver α) (path : ScenarioPath) : Except (Fault α) α :=
  ((walk lp (Guide.along path)).on { problem := P, source := () }).1.map Trajectory.value

private theorem walkFrom_along_coupled (lp : Solver α) (path : ScenarioPath) (g : γ) (n t : ℕ)
    (previous : Option (Visit α)) :
    Coupled (fun (x : Simulation γ α) (y : Simulation Unit α) => x.problem = y.problem ∧
      x.source = g)
      (walkFrom lp (Guide.along path) n t previous)
      (walkFrom lp (Guide.along path) n t previous) Eq := by
  induction n generalizing t previous with
  | zero => exact .pure rfl
  | succ n ih =>
    refine Coupled.get_bind fun x y hxy => ?_
    have hguide : Coupled (fun (s : γ) (_ : Unit) => s = g)
        (Guide.along path x.problem t (comesFrom previous))
        (Guide.along path y.problem t (comesFrom previous)) Eq :=
      (Coupled.ofExcept_eq rfl).bind_same fun step => .pure rfl
    refine (hguide.zoom (fun _ _ h => h.2) fun _ _ _ _ h hs => ⟨h.1, hs⟩).bind_same fun step => ?_
    have hvisit (k s : Datum α) : Coupled Eq (visit lp t k s previous)
        (visit lp t k s previous) Eq := Coupled.refl
    refine ((hvisit _ _).zoom (fun _ _ h => h.1) fun _ _ _ _ h hP => ⟨hP, h.2⟩).bind_same fun v =>
      ?_
    exact (ih (t + 1) (some v)).bind_same fun rest => .pure rfl

theorem walk_along_on (lp : Solver α) (path : ScenarioPath) (P : Multistage α) (g : γ) :
    (walk lp (Guide.along path)).on { problem := P, source := g } =
      let walked := (walk lp (Guide.along path)).on { problem := P, source := () }
      (walked.1, { problem := walked.2.problem, source := g }) := by
  have hwalk : Coupled (fun (x : Simulation γ α)
      (y : Simulation Unit α) => x.problem = y.problem ∧ x.source = g)
      (walk lp (Guide.along path)) (walk lp (Guide.along path)) Eq := by
    refine Coupled.get_bind fun x y hxy => ?_
    rw [hxy.1]
    exact walkFrom_along_coupled lp path g _ _ _
  obtain ⟨hanswer, hproblem, hsource⟩ :=
    hwalk { problem := P, source := g } { problem := P, source := () } ⟨rfl, rfl⟩
  exact Prod.ext hanswer.eq (congrArg₂ Simulation.mk hproblem hsource)

/-- A walk along a path is worth the same, whatever was solved before. -/
theorem walk_worth (hP₀ : P₀.Fresh) (hlp : lp.Blind) (hQ : P₀.SameCuts Q P)
    (path : ScenarioPath) (g : γ) :
    ∃ r Q', (walk lp (Guide.along path)).on
      { problem := Q, source := g } = (r, { problem := Q', source := g }) ∧
      r.map Trajectory.value = P.worth lp path ∧ P₀.SameCuts Q' P := by
  obtain ⟨hanswer, -⟩ := (twins_sameCuts hP₀ hlp).walk (γ := Unit) (Guide.along_plain path)
    { problem := Q, source := () } { problem := P, source := () } ⟨hQ, rfl⟩
  obtain ⟨-, hkept⟩ := ((walkTwins_sameCuts hP₀ lp P).walk (γ := Unit) (Guide.along_plain path)
    { problem := Q, source := () } { problem := Q, source := () } ⟨⟨rfl, hQ⟩, rfl⟩).2.problem
  exact ⟨_, _, walk_along_on lp path Q g, congrArg (Except.map Trajectory.value) hanswer.eq, hkept⟩

/-! ### Jobs -/

variable (paths : ℤ → ScenarioPath)

/-- Jobs that are done one after the other are worth what they are worth alone. -/
theorem walkEach_worth (hP₀ : P₀.Fresh) (hlp : lp.Blind) (hQ : P₀.SameCuts Q P)
    (jobs : List ℤ) (g : γ) :
    ∃ r Q', (walkEach lp (fun j => Guide.along (paths j)) jobs).on { problem := Q, source := g } =
        (r, { problem := Q', source := g }) ∧
      r.map (List.map Trajectory.value) = jobs.mapM (fun j => P.worth lp (paths j)) ∧
      P₀.SameCuts Q' P := by
  induction jobs generalizing Q with
  | nil => exact ⟨_, Q, rfl, rfl, hQ⟩
  | cons j jobs ih =>
    obtain ⟨r, Q₁, hwalk, hworth, hQ₁⟩ := walk_worth hP₀ hlp hQ (paths j) g
    rw [List.mapM_cons, ← hworth, walkEach]
    rcases r with e | x
    · rw [Run.bind_error _ hwalk]
      exact ⟨_, Q₁, rfl, rfl, hQ₁⟩
    · obtain ⟨r, Q₂, hwalks, hworths, hQ₂⟩ := ih hQ₁
      rw [Run.bind_ok _ hwalk, ← hworths]
      rcases r with e | xs
      · rw [Run.bind_error _ hwalks]
        exact ⟨_, Q₂, rfl, rfl, hQ₂⟩
      · rw [Run.bind_ok _ hwalks]
        exact ⟨_, Q₂, rfl, rfl, hQ₂⟩

variable [Source γ α]

theorem walkChunk_worth (hP₀ : P₀.Fresh) (hlp : lp.Blind) (hQ : P₀.SameCuts Q P) (seed : ℕ)
    (jobs : List ℤ) :
    ∃ r Q', (walkChunk lp (γ := γ) (fun j => Guide.along (paths j)) seed jobs).on Q = (r, Q') ∧
      r.map (List.map Trajectory.value) =
        ((chunkSource seed jobs : Except (Fault α) γ) >>=
          fun _ => jobs.mapM fun j => P.worth lp (paths j)) ∧
      P₀.SameCuts Q' P := by
  rw [walkChunk]
  rcases chunkSource seed jobs with e | source
  · exact ⟨_, Q, rfl, rfl, hQ⟩
  · obtain ⟨r, Q', hwalks, hworths, hQ'⟩ := walkEach_worth paths hP₀ hlp hQ jobs source
    refine ⟨r, Q', ?_, hworths, hQ'⟩
    rw [Run.bind_ok _ (Run.ofExcept_on _ Q)]
    exact congrArg (fun y : Except (Fault α) _ × Simulation γ α => (y.1, y.2.problem)) hwalks

private theorem mapM_walkChunk_worth (hP₀ : P₀.Fresh) (hlp : lp.Blind)
    (hQ : P₀.SameCuts Q P) (seed : ℕ) (chunks : List (List ℤ)) :
    ∃ r Q', (chunks.mapM (walkChunk lp (γ := γ) (fun j => Guide.along (paths j)) seed)).on
      Q = (r, Q') ∧
      P₀.SameCuts Q' P ∧
      (∀ walks, r = .ok walks →
        chunks.flatten.mapM (fun j => P.worth lp (paths j)) = .ok
          (walks.flatten.map Trajectory.value)) ∧
      ((∀ jobs ∈ chunks, ∃ source : γ, chunkSource seed jobs = .ok source) →
        r.map (fun walks => walks.flatten.map Trajectory.value) = chunks.flatten.mapM
          fun j => P.worth lp (paths j)) := by
  induction chunks generalizing Q with
  | nil =>
    refine ⟨_, Q, rfl, hQ, fun walks h => ?_, fun _ => rfl⟩
    obtain rfl := Except.ok.inj h
    rfl
  | cons jobs chunks ih =>
    obtain ⟨r, Q₁, hwalk, hworth, hQ₁⟩ := walkChunk_worth (γ := γ) paths hP₀ hlp hQ seed jobs
    rw [List.mapM_cons, List.flatten_cons, List.mapM_append]
    rcases r with e | xs
    · rw [Run.bind_error _ hwalk]
      refine ⟨_, Q₁, rfl, hQ₁, fun walks h => (nomatch h), fun h => ?_⟩
      obtain ⟨source, hsource⟩ := h jobs (by simp)
      rw [hsource] at hworth
      change _ = jobs.mapM _ at hworth
      rw [← hworth]
      rfl
    · obtain ⟨r, Q₂, hwalks, hQ₂, hpartial, htotal⟩ := ih hQ₁
      obtain ⟨source, hsource, hworth⟩ := ok_of_bind hworth.symm
      rw [Run.bind_ok _ hwalk, hworth]
      rcases r with e | xss
      · rw [Run.bind_error _ hwalks]
        refine ⟨_, Q₂, rfl, hQ₂, fun walks h => (nomatch h), fun h => ?_⟩
        rw [← htotal fun jobs hjobs => h jobs (by simp [hjobs])]
        rfl
      · rw [Run.bind_ok _ hwalks, hpartial xss rfl]
        refine ⟨_, Q₂, rfl, hQ₂, fun walks h => ?_, fun _ => ?_⟩
        · obtain rfl := Except.ok.inj h
          rw [List.flatten_cons, List.map_append]
          rfl
        · exact congrArg Except.ok List.map_append

theorem walkChunks_worth (hP₀ : P₀.Fresh) (hlp : lp.Blind) (hQ : P₀.SameCuts Q P) (seed : ℕ)
    (chunks : List (List ℤ)) :
    ∃ r Q', (walkChunks lp (γ := γ) (fun j => Guide.along (paths j)) seed chunks).on Q = (r, Q') ∧
      P₀.SameCuts Q' P ∧
      (∀ walks, r = .ok walks →
        chunks.flatten.mapM (fun j => P.worth lp (paths j)) = .ok (walks.map Trajectory.value)) ∧
      ((∀ jobs ∈ chunks, ∃ source : γ, chunkSource seed jobs = .ok source) →
        r.map (List.map Trajectory.value) = chunks.flatten.mapM fun j => P.worth lp (paths j)) := by
  obtain ⟨r, Q', hwalks, hQ', hpartial, htotal⟩ :=
    mapM_walkChunk_worth (γ := γ) paths hP₀ hlp hQ seed chunks
  rw [walkChunks]
  rcases r with e | xss
  · rw [Run.bind_error _ hwalks]
    exact ⟨_, Q', rfl, hQ', fun walks h => (nomatch h), htotal⟩
  · rw [Run.bind_ok _ hwalks]
    refine ⟨_, Q', rfl, hQ', fun walks h => ?_, htotal⟩
    obtain rfl := Except.ok.inj h
    exact hpartial xss rfl

/-- With whole numbers of jobs and workers, there are as many workers of use as there are jobs at
most. -/
theorem usefulWorkers_int (jobs workers : ℤ) :
    usefulWorkers (α := α) (.int jobs) (.int workers) = .ok (.int (max 1 (min jobs workers))) := by
  have hexceeds (a b : ℤ) : Datum.exceeds (α := α) (.int a) (.int b) = .ok (decide (b < a)) := by
    have horder : Datum.order (α := α) (.int a) (.int b) = .ok (some (compare a b)) := rfl
    rw [Datum.exceeds, horder]
    change Except.ok (some (compare a b) == some .gt) = _
    congr 1
    rw [beq_eq_decide]
    exact decide_eq_decide.mpr ((Option.some_inj).trans compare_gt_iff_gt)
  have hleast : Datum.least (α := α) (.int jobs) (.int workers) = .ok
      (.int (min jobs workers)) := by
    rw [Datum.least, hexceeds, min_def_lt]
    change Except.ok (if decide (workers < jobs) = true then _ else _) = _
    grind
  have hgreatest (a b : ℤ) : Datum.greatest (α := α) (.int a) (.int b) = .ok (.int (max a b)) := by
    rw [Datum.greatest, hexceeds, max_def_lt]
    change Except.ok (if decide (a < b) = true then _ else _) = _
    grind
  rw [usefulWorkers, hleast]
  exact hgreatest 1 _

/-- The jobs of a schedule are worth what they are worth alone, in order. -/
theorem walkJobs_worth (hP₀ : P₀.Fresh) (hlp : lp.Blind) (hQ : P₀.SameCuts Q P) (seed : ℕ) {n k : ℤ}
    (hk : 1 ≤ k) (hkn : k ≤ n) (hquotient : ∀ q, Schedule.quotient (α := α) n k = .ok q → 0 ≤ q) :
    ∃ r Q', (walkJobs lp (γ := γ) (fun j => Guide.along (paths j)) seed (.int n) (.int k)).on
      Q = (r, Q') ∧
      P₀.SameCuts Q' P ∧
      (∀ walks, r = .ok walks →
        (Schedule.span 0 n).mapM (fun j => P.worth lp (paths j)) = .ok
        (walks.map Trajectory.value)) ∧
      (n ≤ 2 ^ 32 → r.map (List.map Trajectory.value) = (Schedule.span 0 n).mapM
        fun j => P.worth lp (paths j)) := by
  have hallocate : Schedule.allocateData (.int n) (.int k) = Schedule.allocate (α := α) n k := rfl
  have hwhole (chunks : List (List ℤ)) (guide : ℤ → Guide γ α) : (do
      let walks ← walkChunks lp guide seed (leading none chunks)
      Run.breakOff false
      return walks) = walkChunks lp guide seed chunks := by
    rw [Run.breakOff_false]
    exact bind_pure _
  rw [walkJobs, hallocate]
  rcases hchunks : Schedule.allocate (α := α) n k with e | chunks
  · refine ⟨_, Q, rfl, hQ, fun walks h => (nomatch h), fun hn => ?_⟩
    have hlimit : Schedule.exactLimit = 2 ^ 53 := rfl
    obtain ⟨chunks, hchunks', -⟩ := Schedule.allocate_spec (α := α) hk hkn (by omega)
    rw [hchunks] at hchunks'
    cases hchunks'
  · rw [Run.bind_ok _ (Run.ofExcept_on _ Q), Option.isSome_none, hwhole]
    obtain ⟨r, Q', hwalks, hQ', hpartial, htotal⟩ :=
      walkChunks_worth (γ := γ) paths hP₀ hlp hQ seed chunks
    rw [Schedule.flatten_of_allocate hk hkn hquotient hchunks] at hpartial htotal
    refine ⟨r, Q', hwalks, hQ', hpartial, fun hn => htotal fun jobs hjobs => ?_⟩
    have hlimit : Schedule.exactLimit = 2 ^ 53 := rfl
    obtain ⟨chunks', hchunks', hflatten, hne, -⟩ :=
      Schedule.allocate_spec (α := α) hk hkn (by omega)
    obtain rfl : chunks = chunks' := Except.ok.inj (hchunks.symm.trans hchunks')
    obtain ⟨j, later, rfl⟩ := List.exists_cons_of_ne_nil (hne jobs hjobs)
    have hj : j ∈ Schedule.span 0 n := hflatten ▸ List.mem_flatten.mpr ⟨_, hjobs, by simp⟩
    obtain ⟨i, hi, rfl⟩ := List.mem_map.mp hj
    rw [List.mem_range] at hi
    have hseeds : Int.pow 2 32 = 2 ^ 32 := rfl
    rw [chunkSource, hseeds, if_pos (by omega)]
    exact ⟨_, rfl⟩

end Multistage

end

/-! ### Evaluations -/

namespace Evaluation

variable [Field α] [LinearOrder α] [IsStrictOrderedRing α] [Numeral α] {p P₀ : Multistage α}
  {lp : Solver α}
  {o : EvaluationPlan α} {x x' : Assessment γ α}

omit [IsStrictOrderedRing α] [Numeral α] in
theorem exists_gapOf {e : Evaluation α} {v : α} (h : e.exact = some v) (p : Multistage α) :
    ∃ gap, e.gapOf p = .ok gap := by
  have hcomparison : ∃ c, e.comparison p.sense = some c := by
    unfold comparison
    rcases e.interval with _ | ⟨low, high⟩
    · exact ⟨v, by rw [h]⟩
    · cases p.sense <;> exact ⟨_, rfl⟩
  obtain ⟨c, hc⟩ := hcomparison
  unfold gapOf
  rw [hc]
  split_ifs
  · exact ⟨_, rfl⟩
  · cases e.bound with
    | none => exact ⟨_, rfl⟩
    | some b =>
      dsimp only
      split_ifs <;> exact ⟨_, rfl⟩

/-- The jobs of an evaluation of all paths are the paths in order. -/
theorem map_span (paths : List ScenarioPath) :
    (Schedule.span 0 paths.length).map (fun j => paths.getD j.toNat []) = paths := by
  refine List.ext_getElem (by simp [Schedule.span]) fun i _ hi => ?_
  simp [Schedule.span, List.getElem?_eq_getElem hi]

omit [Field α] [LinearOrder α] [IsStrictOrderedRing α] [Numeral α] in
theorem mapM_span {β : Type} (paths : List ScenarioPath) (f : ScenarioPath → Except (Fault α) β) :
    (Schedule.span 0 paths.length).mapM (fun j => f (paths.getD j.toNat [])) = paths.mapM f := by
  conv_rhs => rw [← map_span paths, List.mapM_map]
  rfl

variable [Source γ α] [Inference α]

omit [IsStrictOrderedRing α] [Inference α] in
/-- Walking all paths gives what they are worth, in order. -/
theorem explore_exhaustive {P : Multistage α} (hP₀ : P₀.Fresh) (hlp : lp.Blind)
    (hP : x.simulation.problem = P) (hkept : P₀.Kept P) {n : ℤ} (hn : o.workers = .int n)
    (hnonempty : P.paths ≠ [])
    (hquotient : ∀ jobs k q : ℤ, 0 < k → k ≤ jobs →
      Schedule.quotient (α := α) jobs k = .ok q → 0 ≤ q)
    (hpaths : x.evaluation.paths = some P.paths)
    (hcount : x.evaluation.pathCount = .int P.paths.length) :
    ∃ r y, (explore lp o).on x = (r, y) ∧ P₀.SameCuts y.simulation.problem P ∧
      (∀ paths values, r = .ok (paths, values) →
        paths = some P.paths ∧ P.paths.mapM (P.worth lp) = .ok values) ∧
      ((P.paths.length : ℤ) ≤ 2 ^ 32 → (∀ path ∈ P.paths, ∃ v, P.worth lp path = .ok v) →
        ∃ found, r = .ok found) := by
  subst hP
  set P := x.simulation.problem
  have hlength := List.length_pos_iff.mpr hnonempty
  have hworkers : Multistage.usefulWorkers o.workers x.evaluation.pathCount = .ok
      (.int (max 1 (min n P.paths.length))) := by
    rw [hn, hcount, Multistage.usefulWorkers_int]
  obtain ⟨seed, g, hseed⟩ : ∃ seed g,
    (Source.draw Multistage.seedLimit).on x.simulation.source = (.ok seed, g) :=
    ⟨_, _, rfl⟩
  have hdraw : (Run.zoom (fun x : Assessment γ α => x.simulation.source)
      (fun source x => { x with simulation := { x.simulation with source } })
      (Source.draw Multistage.seedLimit)).on x =
      (.ok seed, { x with simulation := { x.simulation with source := g } }) := by
    rw [Run.zoom_on, hseed]
  obtain ⟨r, Q, hwalks, hQ, hpartial, htotal⟩ := Multistage.walkJobs_worth (γ := γ)
    (fun j => P.paths.getD j.toNat []) hP₀ hlp hkept.sameCuts seed (n := P.paths.length)
    (k := max 1 (min n P.paths.length)) (by omega) (by omega) fun q =>
    hquotient _ _ q (by omega) (by omega)
  rw [mapM_span] at hpartial htotal
  have honProblem :
      (onProblem (Multistage.walkJobs lp (γ := γ) (guide (some P.paths)) seed (.int P.paths.length)
      (.int (max 1 (min n P.paths.length))))).on
      { x with simulation := { x.simulation with source := g } } =
      (r, { x with simulation := { problem := Q, source := g } }) := by
    change (let walked := (Multistage.walkJobs lp (γ := γ) _ seed _ _).on P
      (walked.1,
      ({ x with simulation := { problem := walked.2, source := g } } : Assessment γ α))) = _
    rw [show (guide (some P.paths) : ℤ → Guide γ α) =
      fun j => Guide.along (P.paths.getD j.toNat []) from rfl, hwalks]
  rw [explore, Run.bind_ok _ hdraw, Run.bind_ok _ (Run.get_on _)]
  dsimp only
  rw [hworkers, Run.bind_ok _ (Run.ofExcept_on _ _), hcount, hpaths]
  rcases r with e | walks
  · rw [Run.bind_error _ honProblem]
    refine ⟨_, _, rfl, hQ, nofun, fun hlimit hworth => ?_⟩
    choose! f hf using hworth
    have hfailed := htotal hlimit
    rw [mapM_ok hf] at hfailed
    cases hfailed
  · rw [Run.bind_ok _ honProblem]
    refine ⟨_, _, rfl, hQ, fun paths values h => ?_, fun _ _ => ⟨_, rfl⟩⟩
    obtain ⟨rfl, rfl⟩ := Prod.mk.inj (Except.ok.inj h)
    exact ⟨rfl, hpartial walks rfl⟩

omit [Source γ α] in
/-- Weighing what all paths are worth never fails, and it gives the nested expectation. -/
theorem weigh_exhaustive (hcharted : x.simulation.problem.Charted)
    (hs : x.simulation.problem.Stochastic) (hfirst : x.simulation.problem.Certain)
    (ho : o.isExhaustive = true) (f : ScenarioPath → α) :
    ∃ x', (weigh o (some x.simulation.problem.paths) (x.simulation.problem.paths.map f)).on x =
      (.ok (), x') ∧
      x'.evaluation.values = some (x.simulation.problem.paths.map f) ∧
      x'.evaluation.exact = some (x.simulation.problem.expectation f) := by
  set P := x.simulation.problem with hP
  obtain ⟨weights, hweights, -, -, hdot⟩ := hcharted.weights_spec hs hfirst
  obtain ⟨gap, hgap⟩ := exists_gapOf (e := { x.evaluation with
    values := some (P.paths.map f), exact := some (Scalar.dot (P.paths.map f) weights) }) rfl P
  have hplain : o.isPlain = true := by rw [EvaluationPlan.isPlain, ho, Bool.true_or]
  rw [weigh, record, Run.bind_ok _ (Run.modify_on _ _), Run.bind_ok _ (Run.get_on _)]
  dsimp only
  rw [← hP, hweights, Run.bind_ok _ (Run.ofExcept_on _ _), record,
    Run.bind_ok _ (Run.modify_on _ _), hplain,
    if_neg (by decide), Run.bind_ok _ (Run.get_on _)]
  dsimp only
  rw [hgap, Run.bind_ok _ (Run.ofExcept_on _ _)]
  exact ⟨_, rfl, rfl, congrArg some (hdot f)⟩

/-- What an evaluation of all paths concludes. -/
theorem conclude_exhaustive {P : Multistage α} (hP₀ : P₀.Fresh) (hlp : lp.Blind)
    (hP : x.simulation.problem = P) (hkept : P₀.Kept P) (hcharted : P.Charted) (hs : P.Stochastic)
    (hfirst : P.Certain)
    (ho : o.isExhaustive = true) {n : ℤ} (hn : o.workers = .int n)
    (hquotient : ∀ jobs k q : ℤ, 0 < k → k ≤ jobs →
      Schedule.quotient (α := α) jobs k = .ok q → 0 ≤ q)
    (hpaths : x.evaluation.paths = some P.paths)
    (hcount : x.evaluation.pathCount = .int P.paths.length) :
    (∀ x', (conclude lp o).on x = (.ok (), x') →
      ∃ f, (∀ path ∈ P.paths, P.worth lp path = .ok (f path)) ∧
        x'.evaluation.values = some (P.paths.map f) ∧
        x'.evaluation.exact = some (P.expectation f)) ∧
    ((P.paths.length : ℤ) ≤ 2 ^ 32 → (∀ path ∈ P.paths, ∃ v, P.worth lp path = .ok v) →
      ∃ x', (conclude lp o).on x = (.ok (), x')) := by
  have hnonempty : P.paths ≠ [] := by
    obtain ⟨weights, hweights, -, hsum, -⟩ := hcharted.weights_spec hs hfirst
    intro hnil
    rw [hnil] at hweights
    obtain rfl := Except.ok.inj hweights
    simp at hsum
  obtain ⟨r, y, hexplore, hy, hpartial, htotal⟩ :=
    explore_exhaustive hP₀ hlp hP hkept hn hnonempty hquotient hpaths hcount
  rw [conclude]
  rcases r with e | ⟨paths, values⟩
  · rw [Run.bind_error _ hexplore]
    refine ⟨fun x' h => (nomatch h), fun hlength hworth => ?_⟩
    obtain ⟨found, hfound⟩ := htotal hlength hworth
    cases hfound
  · obtain ⟨rfl, hworth⟩ := hpartial paths values rfl
    obtain ⟨f, hf, rfl⟩ := exists_map_of_mapM hworth
    have hdraft : y.simulation.problem.draft = P.draft := hy.left.draft_eq.trans hkept.draft_eq.symm
    obtain ⟨x', hweigh, hvalues, hexact⟩ :=
      weigh_exhaustive (o := o) (hcharted.of_draft hdraft) (hs.of_draft hdraft)
      (hfirst.of_draft hdraft) ho f
    simp only [Multistage.paths_of_draft hdraft, Multistage.expectation_of_draft hdraft]
      at hweigh hvalues hexact
    rw [Run.bind_ok _ hexplore]
    dsimp only
    rw [hweigh]
    refine ⟨fun z h => ?_, fun _ _ => ⟨x', rfl⟩⟩
    obtain rfl := (Prod.mk.inj h).2
    exact ⟨f, hf, hvalues, hexact⟩

theorem runSeeded_exhaustive {P : Multistage α} (hP₀ : P₀.Fresh) (hlp : lp.Blind)
    (hkept : P₀.Kept P) (hcharted : P.Charted) (hs : P.Stochastic) (hfirst : P.Certain)
    (hx : Multistage.prepare.on x.simulation.problem = (.ok (), P))
    (hquotient : ∀ jobs k q : ℤ, 0 < k → k ≤ jobs →
      Schedule.quotient (α := α) jobs k = .ok q → 0 ≤ q)
    (ho : o.isExhaustive = true) {n : ℤ} (hn : o.workers = .int n) (seed : Datum α) :
    (∀ x', (runSeeded lp o seed).on x = (.ok (), x') →
      ∃ f, (∀ path ∈ P.paths, P.worth lp path = .ok (f path)) ∧
        x'.evaluation.values = some (P.paths.map f) ∧
        x'.evaluation.exact = some (P.expectation f)) ∧
    ((P.paths.length : ℤ) ≤ 2 ^ 32 → (∀ path ∈ P.paths, ∃ v, P.worth lp path = .ok v) →
      (seed.isNull = true ∨ ∃ source : γ, seeded? seed = .ok source) →
      ∃ x', (runSeeded lp o seed).on x = (.ok (), x')) := by
  set e := ((begin o).on { x with simulation := { x.simulation with problem := P } }).2.evaluation
  have hbegin : (begin o).on { x with simulation := { x.simulation with problem := P } } =
      (.ok (), { evaluation := e, simulation := { x.simulation with problem := P } }) := rfl
  have hpaths := begin_exhaustive ho { x with simulation := { x.simulation with problem := P } }
  have hconclude (source : γ) := conclude_exhaustive
    (x := { evaluation := e, simulation := { problem := P, source } })
    hP₀ hlp rfl hkept hcharted hs hfirst ho hn hquotient hpaths.1 hpaths.2
  have hprepared : (onProblem Multistage.prepare).on x =
      (.ok (), { x with simulation := { x.simulation with problem := P } }) :=
    congrArg (fun r : Except (Fault α) Unit × Multistage α =>
      (r.1, { x with simulation := { x.simulation with problem := r.2 } })) hx
  rw [runSeeded, Run.bind_ok _ hprepared, Run.bind_ok _ hbegin]
  cases hseed : seed.isNull with
  | true =>
    obtain ⟨hpartial, htotal⟩ := hconclude x.simulation.source
    exact ⟨hpartial, fun hlength hworth _ => htotal hlength hworth⟩
  | false =>
    rw [Bool.not_false, if_pos rfl]
    rcases hsource : (seeded? seed : Except (Fault α) γ) with error | source
    · refine ⟨fun x' h => (nomatch h), fun _ _ h => ?_⟩
      obtain h | ⟨source, h⟩ := h
      · cases h
      · cases h
    · obtain ⟨hpartial, htotal⟩ := hconclude source
      exact ⟨hpartial, fun hlength hworth _ => htotal hlength hworth⟩

end Evaluation

section

variable [Field α] [LinearOrder α] [IsStrictOrderedRing α] [Numeral α] {p : Multistage α}

/-- Weighing the enumerated paths is taking the nested expectation. An evaluation of all paths finds
in this way what the policy is worth, whatever was done with the problem before and however many
workers there are, whose chunks are walked one after the other. It does so if each path is worth
something, there are not too many of them to have seeds, and the quotients that the jobs are split
by are rounded as they should be. -/
theorem Evaluation.runSeeded_expectation (hp : p.Charted) (hs : p.Stochastic) (hfirst : p.Certain) :
    (∃ weights, p.paths.mapM p.weight = .ok weights ∧ (∀ w ∈ weights, 0 < w) ∧ weights.sum = 1 ∧
      ∀ f, Scalar.dot (p.paths.map f) weights = p.expectation f) ∧
    ∀ P₀ P : Multistage α, p.Settled → Multistage.prepare.on p = (.ok (), P₀) →
      Relation.ReflTransGen Multistage.Use P₀ P →
      ∀ lp : Solver α, lp.Blind → ∀ (γ : Type) [Source γ α] [Inference α] (x : Assessment γ α),
      Multistage.prepare.on x.simulation.problem = (.ok (), P) →
      (∀ jobs k q : ℤ, 0 < k → k ≤ jobs → Schedule.quotient (α := α) jobs k = .ok q → 0 ≤ q) →
      ∀ (o : EvaluationPlan α) (n : ℤ) (seed : Datum α),
      o.isExhaustive = true → o.workers = .int n →
      (∀ x', (runSeeded lp o seed).on x = (.ok (), x') →
        ∃ f, (∀ path ∈ p.paths, P.worth lp path = .ok (f path)) ∧
          x'.evaluation.values = some (p.paths.map f) ∧
          x'.evaluation.exact = some (p.expectation f)) ∧
      ((p.paths.length : ℤ) ≤ 2 ^ 32 → (∀ path ∈ p.paths, ∃ v, P.worth lp path = .ok v) →
        (seed.isNull = true ∨ ∃ source : γ, seeded? seed = .ok source) →
        ∃ x', (runSeeded lp o seed).on x = (.ok (), x')) := by
  refine ⟨hp.weights_spec hs hfirst, ?_⟩
  intro P₀ P hsettled hprepare huse lp hlp γ _ _ x hx hquotient o n seed ho hn
  have hP₀ := hsettled.fresh hprepare
  have hkept := hP₀.kept_of_use huse
  have hdraft : P.draft = p.draft := hkept.draft_eq.trans (Multistage.draft_of_prepare hprepare)
  have hevaluated := Evaluation.runSeeded_exhaustive hP₀ hlp hkept (hp.of_draft hdraft)
    (hs.of_draft hdraft)
    (hfirst.of_draft hdraft) hx hquotient ho hn seed
  simp only [Multistage.paths_of_draft hdraft, Multistage.expectation_of_draft hdraft] at hevaluated
  exact hevaluated

end

namespace Problems

theorem quotient_nonneg (jobs k q : ℤ) (hk : 0 < k) (hjobs : k ≤ jobs)
    (h : Schedule.quotient (α := ℚ) jobs k = .ok q) : 0 ≤ q := by
  have hquotient : (0 : ℚ) ≤ jobs / k := by
    have : (0 : ℚ) < k := by exact_mod_cast hk
    have : (0 : ℚ) ≤ jobs := by exact_mod_cast hk.le.trans hjobs
    positivity
  unfold Schedule.quotient at h
  split_ifs at h
  · obtain rfl := Except.ok.inj h
    exact Int.tdiv_nonneg (by omega) (by omega)
  · obtain rfl : ⌊(jobs / k : ℚ)⌋ = q := by
      have htruncate : (Numeral.truncate? (jobs / k : ℚ)) = some ⌊(jobs / k : ℚ)⌋ :=
        congrArg some (if_pos hquotient)
      change Schedule.truncated (jobs / k : ℚ) = _ at h
      rw [Schedule.truncated, htruncate] at h
      exact Except.ok.inj h
    exact Int.floor_nonneg.mpr hquotient

theorem shortage_certain : shortage.Certain := by
  intro m hm
  obtain ⟨-, rfl⟩ | ⟨h, -⟩ := stageAt_shortage hm
  · rfl
  · cases h

def shortageOnce : Multistage ℚ :=
  ((Session.trainSeeded stockOptimum { shortagePlan with maxIterations := .int 1 } .null).on
    shortageReady).2.simulation.problem

def shortageEvaluation : Except (Fault ℚ) Unit × Assessment ℕ ℚ :=
  (Evaluation.runSeeded stockOptimum { simulations := .int (-1), workers := .int 2 } .null).on
    { evaluation := Evaluation.new shortage
      simulation := { problem := shortageOnce, source := 0 } }

end Problems

open Problems in
theorem Evaluation.runSeeded_expectation_shortage :
    shortageEvaluation.2.evaluation.exact = some (3 / 2) ∧
    ∃ f, (∀ path ∈ shortage.paths, shortageOnce.worth stockOptimum path = .ok (f path)) ∧
      shortageEvaluation.2.evaluation.values = some (shortage.paths.map f) ∧
      shortageEvaluation.2.evaluation.exact = some (shortage.expectation f) :=
  have huse : Relation.ReflTransGen Multistage.Use shortageReady.simulation.problem shortageOnce :=
    .single (.work (.train stockOptimum
      { shortagePlan with maxIterations := .int 1 } .null shortageReady))
  have hevaluated :=
    (Evaluation.runSeeded_expectation shortage_charted shortage_stochastic shortage_certain).2
    shortageReady.simulation.problem shortageOnce shortage_settled shortage_prepared huse
    stockOptimum stockOptimum_blind ℕ
    { evaluation := Evaluation.new shortage
      simulation := { problem := shortageOnce, source := 0 } }
    (Multistage.prepare_on_prepared (by decide +kernel)) quotient_nonneg
    { simulations := .int (-1), workers := .int 2 } 2 .null
    (by decide +kernel) rfl
  ⟨by decide +kernel, hevaluated.1 _ (Run.on_of_isOk (by decide +kernel))⟩

end Recourse
