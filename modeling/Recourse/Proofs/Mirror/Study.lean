import Recourse.Proofs.Mirror.Problem
import Recourse.Proofs.Resumption

/-! A problem under study, and the same problem with the other sense and with all costs negated.
Whatever trainings and evaluations are asked for, one study finds what the other one does, with the
other sign. -/

namespace Recourse

open Run (Alike Coupled Keeps Triple)

variable {α γ : Type}

/-! ### Studies -/

/-- A problem under study, with what its trainings and its evaluations have found, each under a
number of its own, and with the source of randomness at hand for calls without a seed. -/
structure Study (γ α : Type) where
  problem : Multistage α
  source : γ
  trainings : ℕ → Record α
  evaluations : ℕ → Evaluation α

namespace Study

inductive Call (α : Type) where
  | newTraining (i : ℕ)
  | newEvaluation (i : ℕ)
  | train (i : ℕ) (o : TrainingPlan α) (seed : Datum α)
  | evaluate (i : ℕ) (o : EvaluationPlan α) (seed : Datum α)
  | converged (i : ℕ) (tolerance : Datum α)

inductive Answer (α : Type) where
  | begun
  | trained (ending : Except (Fault α) Ending)
  | evaluated (outcome : Except (Fault α) Unit)
  | judged (good : Except (Fault α) Bool)

inductive Call.Concurrent [Scalar α] [Numeral α] : Call α → Call α → Prop
  | same (call : Call α) : Concurrent call call
  | train (i : ℕ) {o o' : TrainingPlan α} (h : o.Concurrent o') (seed : Datum α) :
      Concurrent (.train i o seed) (.train i o' seed)

section

variable [Scalar α] [Numeral α]

def new (problem : Multistage α) (source : γ) : Study γ α :=
  { problem, source, trainings := fun _ => .empty, evaluations := fun _ => .new problem }

variable [Source γ α] [Inference α]

/-- Answer a call, which may fail. A seed makes a source that is not kept. -/
def answer (lp : Solver α) : Call α → Study γ α → Answer α × Study γ α
  | .newTraining i, x => (.begun, { x with trainings := Function.update x.trainings i .empty })
  | .newEvaluation i,
    x => (.begun, { x with evaluations := Function.update x.evaluations i (.new x.problem) })
  | .train i o seed, x =>
    let r := (Session.trainSeeded lp o seed).on
      { simulation := { problem := x.problem, source := x.source }
        record := x.trainings i, journal := [] }
    (.trained r.1, { x with
      problem := r.2.simulation.problem
      source := if seed.isNull then r.2.simulation.source else x.source
      trainings := Function.update x.trainings i r.2.record })
  | .evaluate i o seed, x =>
    let r := (Evaluation.runSeeded lp o seed).on
      { evaluation := x.evaluations i, simulation := { problem := x.problem, source := x.source } }
    (.evaluated r.1, { x with
      problem := r.2.simulation.problem
      source := if seed.isNull then r.2.simulation.source else x.source
      evaluations := Function.update x.evaluations i r.2.evaluation })
  | .converged i tolerance, x => (.judged ((x.evaluations i).converged x.problem tolerance), x)

def perform (lp : Solver α) : List (Call α) → Study γ α → List (Answer α) × Study γ α
  | [], x => ([], x)
  | call :: calls, x =>
    let r := answer lp call x
    let rest := perform lp calls r.2
    (r.1 :: rest.1, rest.2)

end

end Study

/-! ### Studies from the other side -/

variable [Field α] [LinearOrder α]

/-- A record is told by what it says while training goes on, and by its ending. -/
theorem Record.eq_seen {side : Sense} {r r' : Record α} (hopen : r'.open = r.open.seen side)
    (hending : r'.ending = r.ending) :
    r' = r.seen side := by
  calc r' = { r'.open with ending := r'.ending } := rfl
    _ = { r.open.seen side with ending := r.ending } := by rw [hopen, hending]
    _ = r.seen side := rfl

variable [Numeral α]

structure Session.Facing (x y : Session γ α) : Prop where
  problem : x.simulation.problem.Facing y.simulation.problem
  source : y.simulation.source = x.simulation.source
  record : y.record = x.record.seen .maximize

namespace Study

variable {x y : Study γ α} {lp lp' : Solver α}

structure Facing (x y : Study γ α) : Prop where
  problem : x.problem.Facing y.problem
  source : y.source = x.source
  trainings : ∀ i, y.trainings i = (x.trainings i).seen .maximize
  evaluations : ∀ i, y.evaluations i = (x.evaluations i).seen .maximize

theorem evaluation_new_facing {p p' : Multistage α} (h : p.Facing p') :
    Evaluation.new p' = (Evaluation.new p).seen .maximize := by
  rw [Evaluation.new, show p'.lastBound = p.lastBound.map
    (-·) from congrArg Multistage.lastBound h.frame]
  rfl

theorem facing_new {p p' : Multistage α} (h : p.Facing p') (source : γ) :
    Facing (new p source) (new p' source) where
  problem := h
  source := rfl
  trainings := fun _ => rfl
  evaluations := fun _ => evaluation_new_facing h

omit [Field α] [LinearOrder α] [Numeral α] in
theorem update_facing {β : Type} {f g : ℕ → β} {u : β → β} (h : ∀ j, g j = u (f j)) (i : ℕ)
    {b c : β} (hbc : c = u b) (j : ℕ) :
    Function.update g i c j = u (Function.update f i b j) := by
  rcases eq_or_ne j i with rfl | hne
  · rw [Function.update_self, Function.update_self, hbc]
  · rw [Function.update_of_ne hne, Function.update_of_ne hne, h]

variable [IsStrictOrderedRing α] [Source γ α] [Inference α]

/-- Training leaves the same record on both sides, and comes to the same ending. -/
theorem trainSeeded_facing (hlp : lp.Mirrors lp') {o o' : TrainingPlan α} (ho : o.Concurrent o')
    (seed : Datum α) :
    Coupled (Session.Facing (γ := γ)) (Session.trainSeeded lp o seed)
      (Session.trainSeeded lp' o' seed) Eq := by
  intro x y h
  obtain ⟨hanswer, hend⟩ := Session.trainSeeded_alike hlp.worksAlike Guide.random_facing ho seed x y
    ⟨⟨h.problem, h.source⟩, by rw [h.record]; rfl⟩
  refine ⟨hanswer, hend.simulation.problem, hend.simulation.source, Record.eq_seen hend.record ?_⟩
  -- a run that fails leaves the ending of the record as it was
  obtain ⟨hends, hfails⟩ := Session.trainSeeded_settles lp o seed x.record.ending x rfl
  have hsame : y.record.ending = x.record.ending := by rw [h.record]; rfl
  obtain ⟨hends', hfails'⟩ := Session.trainSeeded_settles lp' o' seed x.record.ending y hsame
  rcases hx : (Session.trainSeeded lp o seed).on x with ⟨r, x₁⟩
  rcases hy : (Session.trainSeeded lp' o' seed).on y with ⟨r', y₁⟩
  rw [hx, hy] at hanswer
  cases hanswer with
  | error e => exact (hfails' e y₁ hy).trans (hfails e x₁ hx).symm
  | ok hendings =>
    subst hendings
    exact (hends' _ y₁ hy).trans (hends _ x₁ hx).symm

theorem answer_facing (hlp : lp.Mirrors lp') {call call' : Call α} (hcall : call.Concurrent call')
    (h : Facing x y) :
    (answer lp' call' y).1 = (answer lp call x).1 ∧
    Facing (answer lp call x).2 (answer lp' call' y).2 := by
  have htrain (i : ℕ) {o o' : TrainingPlan α} (ho : o.Concurrent o') (seed : Datum α) :
      (answer lp' (.train i o' seed) y).1 = (answer lp (.train i o seed) x).1 ∧
        Facing (answer lp (.train i o seed) x).2 (answer lp' (.train i o' seed) y).2 := by
    obtain ⟨hanswer, hend⟩ := trainSeeded_facing hlp ho seed
      { simulation := { problem := x.problem, source := x.source }
        record := x.trainings i, journal := [] }
      { simulation := { problem := y.problem, source := y.source }
        record := y.trainings i, journal := [] }
      ⟨h.problem, h.source, h.trainings i⟩
    refine ⟨congrArg Answer.trained hanswer.eq.symm, hend.problem, ?_,
      update_facing h.trainings i hend.record, h.evaluations⟩
    exact congrArg₂ (fun a b => if seed.isNull then a else b) hend.source h.source
  cases hcall with
  | train i ho seed => exact htrain i ho seed
  | same =>
    cases call with
    | newTraining i => exact ⟨rfl, h.problem, h.source, update_facing h.trainings i rfl,
      h.evaluations⟩
    | newEvaluation i =>
      exact ⟨rfl, h.problem, h.source, h.trainings,
        update_facing h.evaluations i (evaluation_new_facing h.problem)⟩
    | train i o seed => exact htrain i (.refl o) seed
    | evaluate i o seed =>
      obtain ⟨hanswer, hend⟩ :=
        Evaluation.runSeeded_alike hlp.worksAlike.toWalksAlike Guide.random_facing o seed
        { evaluation := x.evaluations i
          simulation := { problem := x.problem, source := x.source } }
        { evaluation := y.evaluations i
          simulation := { problem := y.problem, source := y.source } }
        ⟨h.evaluations i, h.problem, h.source⟩
      refine ⟨congrArg Answer.evaluated hanswer.eq.symm, hend.simulation.problem, ?_, h.trainings,
        update_facing h.evaluations i hend.evaluation⟩
      exact congrArg₂ (fun a b => if seed.isNull then a else b) hend.simulation.source h.source
    | converged i tolerance =>
      have hrisk : y.problem.riskAverse = x.problem.riskAverse :=
        h.problem.same _ (fun _ _ _ _ => rfl) rfl
      refine ⟨congrArg Answer.judged ?_, h⟩
      rw [h.evaluations, Evaluation.converged_seen Sense.isSymmetry_maximize hrisk]

theorem perform_facing (hlp : lp.Mirrors lp') {calls calls' : List (Call α)}
    (hcalls : List.Forall₂ Call.Concurrent calls calls') (h : Facing x y) :
    (perform lp' calls' y).1 = (perform lp calls x).1 ∧
      Facing (perform lp calls x).2 (perform lp' calls' y).2 := by
  induction hcalls generalizing x y with
  | nil => exact ⟨rfl, h⟩
  | cons hcall _ ih =>
    obtain ⟨hanswer, hnext⟩ := answer_facing hlp hcall h
    obtain ⟨hanswers, hend⟩ := ih hnext
    exact ⟨congrArg₂ List.cons hanswer hanswers, hend⟩

/-! ### What is found -/

/-- What two studies have found if it is the same with the other sign: bounds, values of
trajectories and policies and cuts are negated, intervals are turned round, and all else is equal,
also where the next walks lead. -/
structure Opposite (lp lp' : Solver α) (x y : Study γ α) : Prop where
  bounds : ∀ i, (y.trainings i).bounds = (x.trainings i).bounds.map (-·)
  values : ∀ i, (y.trainings i).values = (x.trainings i).values.map (List.map (-·))
  iteration : ∀ i, (y.trainings i).iteration = (x.trainings i).iteration
  ending : ∀ i, (y.trainings i).ending = (x.trainings i).ending
  lastBound : y.problem.lastBound = x.problem.lastBound.map (-·)
  pools : ∀ t k, y.problem.poolAt t k = (x.problem.poolAt t k).map Pool.mirror
  source : y.source = x.source
  evaluated : ∀ i, (y.evaluations i).values = (x.evaluations i).values.map (List.map (-·))
  compared : ∀ i, (y.evaluations i).bound = (x.evaluations i).bound.map (-·)
  exact : ∀ i, (y.evaluations i).exact = (x.evaluations i).exact.map (-·)
  interval : ∀ i, (y.evaluations i).interval = (x.evaluations i).interval.map
    fun (low, high) => (-high, -low)
  gap : ∀ i, (y.evaluations i).gap = (x.evaluations i).gap
  paths : ∀ i, (y.evaluations i).paths = (x.evaluations i).paths ∧
    (y.evaluations i).pathCount = (x.evaluations i).pathCount
  trials : ∀ seed jobs workers,
    Alike (fun walks walks' => walks' = walks.map (List.map fun v => { v with cost := -v.cost }))
    ((Multistage.walkJobs lp (γ := γ) (fun _ => Guide.random) seed jobs workers).on x.problem).1
    ((Multistage.walkJobs lp' (γ := γ) (fun _ => Guide.random) seed jobs workers).on y.problem).1

omit [Inference α] in
theorem Facing.opposite (hlp : lp.Mirrors lp') (h : Facing x y) : Opposite lp lp' x y where
  bounds := fun i => by rw [h.trainings]; rfl
  values := fun i => by rw [h.trainings]; rfl
  iteration := fun i => by rw [h.trainings]; rfl
  ending := fun i => by rw [h.trainings]; rfl
  lastBound := congrArg Multistage.lastBound h.problem.frame
  pools := fun t k => by
    rw [Multistage.poolAt, Multistage.poolAt, h.problem.stageAt_eq]
    rcases x.problem.stageAt t k with _ | m
    · rfl
    · change m.mirror.pool? = m.pool?.map Pool.mirror
      rw [Stage.pool?, Stage.pool?, Stage.mirror]
      cases m.costToGo <;> rfl
  source := h.source
  evaluated := fun i => by rw [h.evaluations]; rfl
  compared := fun i => by rw [h.evaluations]; rfl
  exact := fun i => by rw [h.evaluations]; rfl
  interval := fun i => by rw [h.evaluations]; rfl
  gap := fun i => by rw [h.evaluations]; rfl
  paths := fun i => by rw [h.evaluations]; exact ⟨rfl, rfl⟩
  trials := fun seed jobs workers =>
    ((hlp.worksAlike.toWalksAlike.walkJobs (fun _ => Guide.random_facing) seed jobs workers none)
      x.problem y.problem h.problem).1

/-- Let a problem be given, and the same one with the other sense and with all costs and the bound
negated. If a solver answers each program from the other side like the program itself, then whatever
trainings and evaluations are asked for, both problems lead to the same answers, and what is found
is the same with the other sign. A training that is cut short by its limit of iterations shows where
the walks of the next iteration lead. However many workers there are, chunks and passes are worked
off one after the other. -/
theorem perform_opposite {p p' : Multistage α}
    (hp : ∀ t k m, p.stageAt t k = some m → m.WellFormed ∧ m.solution = none) (h : p.Negates p')
    (hlp : lp.Mirrors lp') (source : γ) {calls calls' : List (Call α)}
    (hcalls : List.Forall₂ Call.Concurrent calls calls') :
    (perform lp' calls' (new p' source)).1 = (perform lp calls (new p source)).1 ∧
      Opposite lp lp' (perform lp calls (new p source)).2
        (perform lp' calls' (new p' source)).2 := by
  obtain ⟨hanswers, hend⟩ := perform_facing hlp hcalls (facing_new (h.facing hp) source)
  exact ⟨hanswers, hend.opposite hlp⟩

end Study

/-! ### Losses, and the same as gains -/

namespace Problems

def leaning (c : Column ℚ) : ℚ :=
  match c.lower, c.upper with
  | .fin a, .fin b => if 0 < a + b then 1 else if a + b < 0 then -1 else 0
  | .fin _, .above => 1
  | .below, .fin _ => -1
  | _, _ => 0

theorem leaning_mirror (column : Option ℕ) (i : ℕ) (c : Column ℚ) :
    leaning (c.mirror column i) = signedAt column i (leaning c) := by
  have hrange (a b : ℚ) : (if 0 < -b + -a then (1 : ℚ) else if -b + -a < 0 then -1 else 0) =
      -(if 0 < a + b then 1 else if a + b < 0 then -1 else 0) := by
    rcases lt_trichotomy (a + b) 0 with h | h | h
    · rw [if_pos (by linarith), if_neg h.not_gt, if_pos h, neg_neg]
    · rw [if_neg (by linarith), if_neg (by linarith), if_neg h.not_gt, if_neg h.not_lt, neg_zero]
    · rw [if_neg (by linarith), if_pos (by linarith), if_pos h]
  obtain ⟨name, lower, upper, cost⟩ := c
  by_cases h : column = some i
  · simp only [Column.mirror, signedAt, if_pos h]
    rcases lower with _ | a | _ <;> rcases upper with _ | b | _ <;>
      simp only [leaning, Limit.opposite, neg_zero, neg_neg]
    exact hrange a b
  · simp only [Column.mirror, signedAt, if_neg h, leaning]

/-- A solver that looks up the answer in a table by the relations and the right-hand sides of the
rows. Variables take their values on the side where they range, and the value and the prices are of
the sign of the sense. -/
def tabled (table : List (Relation × ℚ) → Option (List ℚ × ℚ × List ℚ)) : Solver ℚ := fun P =>
  match table (P.rows.map fun r => (r.relation, r.rhs)) with
  | none => .gaveUp
  | some (magnitudes, value, duals) => .optimal
    { point := P.columns.mapIdx fun i c => leaning c * magnitudes.getD i 0
      value := P.sense.orient value
      duals := duals.map P.sense.orient }

theorem tabled_mirrors (table : List (Relation × ℚ) → Option (List ℚ × ℚ × List ℚ)) :
    (tabled table).Mirrors (tabled table) := by
  intro column P
  have hrows : (P.mirror column).rows.map (fun r => (r.relation, r.rhs)) = P.rows.map
      fun r => (r.relation, r.rhs) := by
    simp [Program.mirror, Row.mirror, Function.comp_def]
  have hpoint (magnitudes : List ℚ) : (P.mirror column).columns.mapIdx
      (fun i c => leaning c * magnitudes.getD i 0) =
      (P.columns.mapIdx fun i c => leaning c * magnitudes.getD i 0).mapIdx (signedAt column) := by
    have hsigned (i : ℕ) (c : Column ℚ) : leaning (c.mirror column i) * magnitudes.getD i 0 =
        signedAt column i (leaning c * magnitudes.getD i 0) := by
      rw [leaning_mirror, signedAt, signedAt, ite_mul, neg_mul]
    rw [Program.mirror, List.mapIdx_mapIdx, List.mapIdx_mapIdx]
    simp only [Function.comp_def, hsigned]
  have hduals (duals : List ℚ) :
      duals.map P.sense.opposite.orient = (duals.map P.sense.orient).map (-·) := by
    rw [List.map_map]
    exact List.map_congr_left fun x _ => P.sense.orient_opposite x
  unfold tabled
  rw [hrows]
  cases table (P.rows.map fun r => (r.relation, r.rhs)) with
  | none => rfl
  | some entry =>
    simp only [hpoint, show (P.mirror column).sense = P.sense.opposite from rfl, hduals,
      Sense.orient_opposite]
    rfl

/-- The optima of the programs that come up, when the stock is chosen with up to two cuts and when
the demand shows. -/
def shortageTable : List (Relation × ℚ) → Option (List ℚ × ℚ × List ℚ)
  | [] => some ([0, 0, -1], -1, [])
  | [_] => some ([2, 0, 0], 1, [1 / 2])
  | [(_, demand), (relation, stock)] =>
    if relation = .equal then
      if stock < demand then some ([0, stock, demand - stock], demand - stock, [1, -1])
        else some ([0, stock, 0], 0, [0, 0])
    else some ([1, 0, 1], 3 / 2, [0, 1])
  | _ => none

def loss : Multistage ℚ := { shortage with outline := { shortage.outline with bound := .int (-1) } }

def gain : Multistage ℚ :=
  { shortage with
    outline := { shortage.outline with bound := .int 1, sense := .int (-1) }
    sense := .maximize
    models := [[purchase.negate], [demand.negate]] }

theorem loss_negates : loss.Negates gain where
  frame := rfl
  bound := congrArg Except.ok (by decide +kernel :
    Limit.ofNumber ((1 : ℤ) : ℚ) = (Limit.ofNumber ((-1 : ℤ) : ℚ)).opposite)

def lossCalls : List (Study.Call ℚ) :=
  [.train 0 { shortagePlan with maxIterations := .int 2 } .null,
    .evaluate 0 { simulations := .int 3, workers := .int 2 } (.int 2),
    .evaluate 1 { simulations := .int (-1) } .null,
    .converged 0 (.int 0)]

def lossStudy : Study ℕ ℚ := (Study.perform (tabled shortageTable) lossCalls (Study.new loss 0)).2

def gainStudy : Study ℕ ℚ := (Study.perform (tabled shortageTable) lossCalls (Study.new gain 0)).2

end Problems

open Problems in
theorem Study.perform_opposite_loss :
    (lossStudy.trainings 0).bounds = [1, 3 / 2] ∧ (gainStudy.trainings 0).bounds = [-1, -(3 / 2)] ∧
    (lossStudy.evaluations 0).interval = some (-(5 / 6), 19 / 6) ∧
    (gainStudy.evaluations 0).interval = some (-(19 / 6), 5 / 6) ∧
    Opposite (tabled shortageTable) (tabled shortageTable) lossStudy gainStudy := by
  have hloss (t k : ℕ) (m : Stage ℚ) (hm : loss.stageAt t k = some m) :
      m.WellFormed ∧ m.solution = none := by
    obtain ⟨-, rfl⟩ | ⟨-, rfl⟩ := stageAt_shortage hm
    · exact ⟨purchase_wellFormed, rfl⟩
    · exact ⟨demand_wellFormed, rfl⟩
  have hcalls : List.Forall₂ Call.Concurrent lossCalls lossCalls :=
    List.forall₂_same.mpr fun call _ => .same call
  have hopposite := perform_opposite hloss loss_negates (tabled_mirrors shortageTable)
    (0 : ℕ) hcalls
  exact ⟨by decide +kernel, by decide +kernel, by decide +kernel, by decide +kernel, hopposite.2⟩

end Recourse
