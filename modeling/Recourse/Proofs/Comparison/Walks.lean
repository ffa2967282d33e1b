import Recourse.Proofs.Coupling
import Recourse.Training

/-! Two runs on problems that are like each other. The second run may see the costs from the other
side, from which they are negated, and both may keep to some of the Markov states. Where the
elementary operations agree, namely preparing, visiting, refining and bounding, whole walks and
backward passes do. -/

namespace Recourse

open Run (Alike Coupled Keeps Triple)

variable {γ α β : Type}

/-! ### Costs seen from a side -/

section

variable [Scalar α] (side : Sense)

namespace Sense

def facing : Sense → Sense → Sense
  | .minimize, sense => sense
  | .maximize, .minimize => .maximize
  | .maximize, .maximize => .minimize

def turn : Sense → α × α → α × α
  | .minimize, I => I
  | .maximize, I => (-I.2, -I.1)

/-- Whether arithmetic looks the same from a side. -/
structure IsSymmetry (side : Sense) (α : Type) [Scalar α] : Prop where
  total : ∀ xs : List α, Scalar.total (xs.map side.orient) = side.orient (Scalar.total xs)
  dot : ∀ xs ws : List α, Scalar.dot (xs.map side.orient) ws = side.orient (Scalar.dot xs ws)
  magnitude : ∀ x : α, Scalar.abs (side.orient x) = Scalar.abs x
  change : ∀ x b : α, Scalar.abs (side.orient x - side.orient b) = Scalar.abs (x - b)
  gap : ∀ x b : α, Scalar.abs ((side.orient x - side.orient b) / side.orient b) = Scalar.abs
    ((x - b) / b)
  isZero : ∀ x : α, Scalar.isZero (side.orient x) = Scalar.isZero x
  covers : ∀ low high b : α, (decide ((side.turn (low, high)).1 ≤ side.orient b) &&
    decide (side.orient b ≤ (side.turn (low, high)).2)) = (decide (low ≤ b) && decide (b ≤ high))
  interval : ∀ (_ : Inference α) (xs : List α) (share : α),
    Statistics.interval (xs.map side.orient) share = (Statistics.interval xs share).map side.turn

theorem map_orient_minimize (xs : List α) : xs.map (Sense.orient .minimize) = xs := List.map_id xs

/-- Nothing changes if costs stay what they are. -/
theorem isSymmetry_minimize : Sense.minimize.IsSymmetry α where
  total := fun xs => by rw [map_orient_minimize]; rfl
  dot := fun xs ws => by rw [map_orient_minimize]; rfl
  magnitude := fun _ => rfl
  change := fun _ _ => rfl
  gap := fun _ _ => rfl
  isZero := fun _ => rfl
  covers := fun _ _ _ => rfl
  interval := fun _ xs share => by
    rw [map_orient_minimize]
    cases Statistics.interval xs share <;> rfl

end Sense

def Visit.seen (v : Visit α) : Visit α := { v with cost := side.orient v.cost }

def Outcomes.seen (found : Outcomes α) : Outcomes α :=
  { values := found.values.map side.orient,
    gradients := found.gradients.map (List.map side.orient) }

theorem Outcomes.seen_minimize (found : Outcomes α) : found.seen .minimize = found := by
  have hmap : List.map (Sense.orient (α := α) .minimize) = id := funext Sense.map_orient_minimize
  rw [seen, hmap, List.map_id, id_eq]

theorem gather_seen (results : List (Outcomes α)) :
    Multistage.gather (results.map (Outcomes.seen side)) =
    (Multistage.gather results).seen side := by
  simp only [Multistage.gather, Outcomes.seen, List.flatMap_map, List.map_flatMap]

theorem Trajectory.value_seen (hside : side.IsSymmetry α) (x : Trajectory α) :
    Trajectory.value (x.map (Visit.seen side)) = side.orient x.value := by
  have hcosts : (x.map (Visit.seen side)).map Visit.cost = (x.map Visit.cost).map side.orient := by
    rw [List.map_map, List.map_map]
    rfl
  rw [Trajectory.value, hcosts, hside.total, Trajectory.value]

end

/-! ### What two runs have in common -/

/-- What two runs are compared by: the relation in which their problems are, the side from which the
second one sees the costs, the steps that both may take, and the Markov states whose outcomes they
may ask for. -/
structure Comparison (α : Type) where
  related : Multistage α → Multistage α → Prop
  side : Sense
  step : ℕ → Datum α × Datum α → Prop
  state : ℕ → ℕ → Prop

namespace Comparison

variable (C : Comparison α)

/-- Whether a visit may come before a stage; before the first one, there is none. -/
def Arrived : ℕ → Option (Visit α) → Prop
  | 0, previous => previous = none
  | t + 1, previous => ∃ v, previous = some v ∧ C.step t (v.markovState, v.sample)

def Came : ℕ → ℤ → Prop
  | 0, _ => True
  | t + 1, j => ∃ step, C.step t step ∧ step.1.int?.getD 0 = j

def Along : ℕ → ScenarioPath → Prop
  | _, [] => True
  | t, step :: path => C.step t (Guide.place step) ∧ Along (t + 1) path

def Follows : ℕ → Trajectory α → Prop
  | _, [] => True
  | t, v :: x => C.step t (v.markovState, v.sample) ∧ Follows (t + 1) x

/-- A guide that leads both runs the same way, by steps that may be taken. -/
def Guided (guide : Guide γ α) : Prop := ∀ P P', C.related P P' → ∀ t j, C.Came t j →
  Coupled Eq (guide P t j) (guide P' t j) fun step step' => step' = step ∧ C.step t step

variable {C}

theorem Arrived.came {t : ℕ} {previous : Option (Visit α)} (h : C.Arrived t previous) :
    C.Came t ((previous.bind fun v => v.markovState.int?).getD 0) := by
  cases t with
  | zero => trivial
  | succ t =>
    obtain ⟨v, rfl, hv⟩ := h
    exact ⟨_, hv, rfl⟩

theorem Along.step_of_getElem? {t i : ℕ} {path : ScenarioPath} {step : ℤ × ℤ} (h : C.Along t path)
    (hstep : path[i]? = some step) : C.step (t + i) (Guide.place step) := by
  induction path generalizing t i with
  | nil => simp at hstep
  | cons first path ih =>
    cases i with
    | zero =>
      obtain rfl : first = step := by simpa using hstep
      exact h.1
    | succ i =>
      have hlater := ih h.2 (i := i) (by simpa using hstep)
      rwa [Nat.add_right_comm] at hlater

theorem Follows.step_of_getElem? {t i : ℕ} {x : Trajectory α} {v : Visit α} (h : C.Follows t x)
    (hv : x[i]? = some v) :
    C.step (t + i) (v.markovState, v.sample) := by
  induction x generalizing t i with
  | nil => simp at hv
  | cons first x ih =>
    cases i with
    | zero =>
      obtain rfl : first = v := by simpa using hv
      exact h.1
    | succ i =>
      have hlater := ih h.2 (i := i) (by simpa using hv)
      rwa [Nat.add_right_comm] at hlater

/-- To keep to a path is to be led the same way. -/
theorem Along.guided {path : ScenarioPath} (h : C.Along 0 path) :
    C.Guided (Guide.along path : Guide γ α) := by
  intro P P' _ t j _
  rw [Guide.along, Guide.along]
  refine Coupled.bind (A := fun a b => b = a ∧ C.step t (Guide.place a)) (.ofExcept ?_) ?_
  · unfold entryAt
    cases hstep : path[t]? with
    | none => exact .error _
    | some step =>
      have ht := h.step_of_getElem? hstep
      rw [Nat.zero_add] at ht
      exact .ok ⟨rfl, ht⟩
  · rintro step _ ⟨rfl, hstep⟩
    exact .pure ⟨rfl, hstep⟩

end Comparison

/-! ### Agreement in the elementary operations -/

section

variable [Scalar α] [Numeral α]

structure Comparison.WalksAlike (C : Comparison α) (lp lp' : Solver α) : Prop where
  symmetry : C.side.IsSymmetry α
  prepare : Coupled C.related Multistage.prepare Multistage.prepare Eq
  visit : ∀ t k s previous, C.Arrived t previous → C.step t (k, s) →
    Coupled C.related (Multistage.visit lp t k s previous)
      (Multistage.visit lp' t k s (previous.map (Visit.seen C.side))) fun v v' => v' = v.seen C.side
  horizon : ∀ P P', C.related P P' → P'.horizon = P.horizon
  sense : ∀ P P', C.related P P' → P'.sense = C.side.facing P.sense
  riskAverse : ∀ P P', C.related P P' → P'.riskAverse = P.riskAverse
  lastBound : ∀ P P', C.related P P' → P'.lastBound = P.lastBound.map C.side.orient
  paths : ∀ P P', C.related P P' → P'.paths = P.paths ∧ ∀ path ∈ P.paths, C.Along 0 path
  weight : ∀ P P', C.related P P' → ∀ path, C.Along 0 path → P'.weight path = P.weight path

structure Comparison.WorksAlike (C : Comparison α) (lp lp' : Solver α) :
    Prop extends C.WalksAlike lp lp' where
  bounded : ∀ P P', C.related P P' → ∀ b : Option α,
    C.related { P with lastBound := b } { P' with lastBound := b.map C.side.orient }
  reachable : ∀ P P', C.related P P' → ∀ t, P'.reachableStates t = P.reachableStates t ∧
    ∀ k ∈ P.reachableStates t, C.state t k
  outcomes : ∀ t k state noise, C.state t k →
    Coupled C.related (Multistage.outcomes lp t k state noise)
    (Multistage.outcomes lp' t k state noise) fun found found' => found' = found.seen C.side
  refineAt : ∀ t j found state noise,
    C.state (t - 1) j → Coupled C.related (Multistage.refineAt t j found state noise)
    (Multistage.refineAt t j (found.seen C.side) state noise) Eq
  computeBound : Coupled C.related (Multistage.computeBound lp) (Multistage.computeBound lp')
    fun b b' => b' = C.side.orient b

namespace Multistage

omit [Scalar α] [Numeral α] in
theorem onModel_answer {B : β → Prop} {act : Stage.Edit α β}
    (h : Triple (fun _ => True) act (fun b _ => B b) fun _ => True) (t k : ℕ) :
    Triple (fun _ => True) (onModel t k act) (fun b _ => B b) fun _ => True := by
  refine fun P _ => ⟨fun b P' hrun => ?_, fun _ _ _ => trivial⟩
  have hanswer : ((Run.entry t (Run.entry k act)).on P.models).1 = .ok b := congrArg Prod.fst hrun
  unfold Run.on Run.entry at hanswer
  rcases hms : P.models[t]? with _ | ms
  · rw [hms] at hanswer
    cases hanswer
  · rw [hms] at hanswer
    dsimp only at hanswer
    rcases hm : ms[k]? with _ | m
    · rw [hm] at hanswer
      cases hanswer
    · rw [hm] at hanswer
      exact (h m trivial).1 b _ (Prod.ext hanswer rfl)

/-- A visit is where it was sent. -/
theorem visit_place (lp : Solver α) (t : ℕ) (k s : Datum α) (previous : Option (Visit α)) :
    Triple (fun _ => True) (visit lp t k s previous) (fun v _ => v.markovState = k ∧ v.sample = s)
      fun _ => True := by
  have htrue {σ β : Type} (act : Run α σ β) :
      Triple (fun _ => True) act (fun _ _ => True) fun _ => True := Keeps.true
  refine Triple.get_bind_any fun P => Triple.bind (htrue _) fun i => Triple.get_bind_any fun _ =>
    Triple.bind (htrue _) fun place => onModel_answer ?_ _ _
  have hsolved : Triple (fun _ => True) (do
      Stage.enterScenario s
      let x ← Stage.solve lp "forward" s
      let m ← get
      return ({ markovState := k, sample := s, state := (m.outgoing x).1, noise := (m.outgoing x).2
                cost := m.ownCost P.discount t x } : Visit α))
      (fun v _ => v.markovState = k ∧ v.sample = s) fun _ => True :=
    Triple.bind (htrue _) fun _ =>
      Triple.bind (htrue _) fun x => Triple.get_bind_any fun m => Triple.pure fun _ _ => ⟨rfl, rfl⟩
  cases previous with
  | none => exact hsolved
  | some v => exact Triple.bind (htrue _) fun _ => hsolved

end Multistage

end

/-! ### Walks -/

structure Comparison.Simulations (C : Comparison α) (x y : Simulation γ α) : Prop where
  problem : C.related x.problem y.problem
  source : y.source = x.source

namespace Simulation

variable {C : Comparison α} {A : β → β → Prop}

theorem onProblem_alike {act act' : Run α (Multistage α) β} (h : Coupled C.related act act' A) :
    Coupled (C.Simulations (γ := γ)) (onProblem act) (onProblem act') A :=
  h.zoom (fun _ _ hxy => hxy.problem) fun _ _ _ _ hxy hP => ⟨hP, hxy.source⟩

theorem onSource_alike {act act' : Run α γ β} (h : Coupled Eq act act' A) :
    Coupled C.Simulations (onSource act) (onSource act') A :=
  h.zoom (fun _ _ hxy => hxy.source.symm) fun _ _ _ _ hxy hs => ⟨hxy.problem, hs.symm⟩

end Simulation

namespace Comparison.WalksAlike

variable [Scalar α] [Numeral α] {C : Comparison α} {lp lp' : Solver α} (h : C.WalksAlike lp lp')
include h

theorem walkFrom {guide : Guide γ α} (hguide : C.Guided guide) (n t : ℕ)
    (previous : Option (Visit α))
    (hprevious : C.Arrived t previous) :
    Coupled C.Simulations (Multistage.walkFrom lp guide n t previous)
      (Multistage.walkFrom lp' guide n t (previous.map (Visit.seen C.side)))
      fun x x' => x' = x.map (Visit.seen C.side) ∧ C.Follows t x := by
  induction n generalizing t previous with
  | zero => exact .pure ⟨rfl, trivial⟩
  | succ n ih =>
    have hcame : ((previous.map (Visit.seen C.side)).bind fun v => v.markovState.int?) =
        previous.bind fun v => v.markovState.int? := by cases previous <;> rfl
    refine Coupled.get_bind fun x y hxy => ?_
    dsimp only
    rw [hcame]
    refine (Simulation.onSource_alike (hguide _ _ hxy.problem t _ hprevious.came)).bind ?_
    rintro ⟨k, s⟩ _ ⟨rfl, hstep⟩
    refine (Simulation.onProblem_alike
      ((h.visit t k s previous hprevious hstep).and_left
      (Multistage.visit_place lp t k s previous))).bind ?_
    rintro v _ ⟨rfl, rfl, rfl⟩
    refine (ih (t + 1) (some v) ⟨v, rfl, hstep⟩).bind ?_
    rintro rest _ ⟨rfl, hrest⟩
    exact .pure ⟨rfl, hstep, hrest⟩

theorem walk {guide : Guide γ α} (hguide : C.Guided guide) :
    Coupled C.Simulations (Multistage.walk lp guide) (Multistage.walk lp' guide)
      fun x x' => x' = x.map (Visit.seen C.side) ∧ C.Follows 0 x := by
  refine Coupled.get_bind fun x y hxy => ?_
  dsimp only
  rw [h.horizon _ _ hxy.problem]
  exact h.walkFrom hguide _ 0 none rfl

theorem walkEach {guide : ℤ → Guide γ α} (hguide : ∀ job, C.Guided (guide job)) (jobs : List ℤ) :
    Coupled C.Simulations (Multistage.walkEach lp guide jobs) (Multistage.walkEach lp' guide jobs)
      fun xs xs' => xs' = xs.map (List.map (Visit.seen C.side)) ∧ ∀ x ∈ xs, C.Follows 0 x := by
  induction jobs with
  | nil => exact .pure ⟨rfl, by simp⟩
  | cons job jobs ih =>
    refine (h.walk (hguide job)).bind ?_
    rintro x _ ⟨rfl, hx⟩
    refine ih.bind ?_
    rintro xs _ ⟨rfl, hxs⟩
    exact .pure ⟨rfl, List.forall_mem_cons.mpr ⟨hx, hxs⟩⟩

variable [Source γ α]

theorem walkChunk {guide : ℤ → Guide γ α} (hguide : ∀ job, C.Guided (guide job)) (seed : ℕ)
    (jobs : List ℤ) :
    Coupled C.related (Multistage.walkChunk lp guide seed jobs)
      (Multistage.walkChunk lp' guide seed jobs)
      fun xs xs' => xs' = xs.map (List.map (Visit.seen C.side)) ∧ ∀ x ∈ xs, C.Follows 0 x := by
  refine (Coupled.ofExcept_eq rfl).bind_same fun source => fun P P' hP => ?_
  obtain ⟨hanswer, hx⟩ := h.walkEach hguide jobs { problem := P, source }
    { problem := P', source } ⟨hP, rfl⟩
  exact ⟨hanswer, hx.problem⟩

theorem walkChunks {guide : ℤ → Guide γ α} (hguide : ∀ job, C.Guided (guide job)) (seed : ℕ)
    (chunks : List (List ℤ)) : Coupled C.related (Multistage.walkChunks lp guide seed chunks)
      (Multistage.walkChunks lp' guide seed chunks)
      fun xs xs' => xs' = xs.map (List.map (Visit.seen C.side)) := by
  have hchunk (jobs : List ℤ) := (h.walkChunk hguide seed jobs).mono fun _ _ hxs => hxs.1
  exact (Coupled.mapM_map fun jobs _ => hchunk jobs).bind_map fun walks =>
    .pure List.map_flatten.symm

theorem walkJobs {guide : ℤ → Guide γ α} (hguide : ∀ job, C.Guided (guide job)) (seed : ℕ)
    (jobs workers : Datum α) (limit : Option ℕ) :
    Coupled C.related (Multistage.walkJobs lp guide seed jobs workers limit)
      (Multistage.walkJobs lp' guide seed jobs workers limit)
      fun xs xs' => xs' = xs.map (List.map (Visit.seen C.side)) := by
  apply (Coupled.ofExcept_eq rfl).bind_same
  intro chunks
  apply (h.walkChunks hguide seed (leading limit chunks)).bind_map
  intro walks
  exact Coupled.breakOff.bind_same fun _ => .pure rfl

end Comparison.WalksAlike

/-! ### Backward passes -/

namespace Comparison.WorksAlike

variable [Scalar α] [Numeral α] {C : Comparison α} {lp lp' : Solver α} (h : C.WorksAlike lp lp')
include h

theorem refineStage (t : ℕ) (state : List α) (noise : Option (List α)) :
    Coupled C.related (Multistage.refineStage lp t state noise)
      (Multistage.refineStage lp' t state noise) Eq := by
  refine Coupled.get_bind fun P P' hP => ?_
  rw [(h.reachable P P' hP t).1, (h.reachable P P' hP (t - 1)).1]
  refine (Coupled.mapM_map fun k hk => h.outcomes t k state noise
    ((h.reachable P P' hP t).2 k hk)).bind_map fun found => ?_
  rw [gather_seen]
  exact Coupled.forM fun j hj => h.refineAt t j _ state noise ((h.reachable P P' hP (t - 1)).2 j hj)

theorem refineFrom (states : List (List α)) (noises : List (Option (List α))) (n : ℕ) :
    Coupled C.related
    (Multistage.refineFrom lp states noises n) (Multistage.refineFrom lp' states noises n) Eq := by
  induction n with
  | zero => exact .pure rfl
  | succ n ih =>
    refine (Coupled.ofExcept_eq rfl).bind_same fun state =>
      (Coupled.ofExcept_eq rfl).bind_same fun noise => ?_
    exact (h.refineStage (n + 1) state noise).bind_same fun _ => ih

theorem refine (states : List (List α)) (noises : List (Option (List α))) :
    Coupled C.related (Multistage.refine lp states noises)
      (Multistage.refine lp' states noises) Eq := by
  refine Coupled.get_bind fun P P' hP => ?_
  rw [h.horizon _ _ hP]
  exact h.refineFrom _ _ _

theorem refineAlong (x : Trajectory α) : Coupled C.related (Multistage.refineAlong lp x)
    (Multistage.refineAlong lp' (x.map (Visit.seen C.side))) Eq := by
  have hstates : (x.map (Visit.seen C.side)).map Visit.state = x.map Visit.state := by
    rw [List.map_map]
    rfl
  have hnoises : (x.map (Visit.seen C.side)).map (fun v => some v.noise) = x.map
      fun v => some v.noise := by
    rw [List.map_map]
    rfl
  rw [Multistage.refineAlong, Multistage.refineAlong, hstates, hnoises]
  exact h.refine _ _

theorem refineAll (walks : List (Trajectory α)) (limit : Option ℕ) :
    Coupled C.related (Multistage.refineAll lp walks limit)
      (Multistage.refineAll lp' (walks.map (List.map (Visit.seen C.side))) limit) Eq := by
  have hleading : leading limit (walks.map (List.map (Visit.seen C.side))) =
      (leading limit walks).map (List.map (Visit.seen C.side)) := by
    cases limit with
    | none => rfl
    | some n => exact List.map_take.symm
  rw [Multistage.refineAll, Multistage.refineAll, hleading]
  exact (Coupled.forM_map fun walk _ => h.refineAlong walk).bind_same fun _ => .breakOff

end Comparison.WorksAlike

end Recourse
