import Recourse.Proofs.Linear.Certificate
import Recourse.Proofs.Multistage.Independence
import Recourse.Proofs.Session

/-! Bounds that never get worse. As long as no cut is removed, the program of the bound only gains
constraints. So a later optimum is a point that was there before, and no recorded bound was better
than it. -/

namespace Recourse

open Run (Keeps Triple)

variable {γ α β : Type} [Field α] [LinearOrder α]

namespace Stage

variable {m M : Stage α} {arrival : Arrival α} {d : Datum α} {lp : Solver α}
  {cuts cuts' : List (Cut α)} {y : List α}

/-- More cuts leave fewer points. -/
theorem feasible_of_subset (hcuts : cuts ⊆ cuts') (hy : (m.request arrival d cuts').Feasible y) :
    (m.request arrival d cuts).Feasible y := by
  refine ⟨hy.1, hy.2.1, fun r hr => hy.2.2 r ?_⟩
  exact List.mem_append.mpr ((List.mem_append.mp hr).imp_right fun hr => List.map_subset _ hcuts hr)

variable [Numeral α] {b : α} {M' : Stage α}

/-- A bound is the value of an optimum of the program that the stored cuts make. -/
theorem estimate_ok (hm : m.Settled) (hM : m.Entered none M)
    (hrun : (estimate lp).on M = (.ok b, M')) :
    ∃ (Q : Program α) (o : Optimum α), Q.anonymous = (m.request none (.int 0) M.cuts).anonymous ∧
      lp Q = .optimal o ∧ o.value = b := by
  rw [estimate_eq] at hrun
  obtain ⟨x, M₁, hsolve, hvalue⟩ := Run.exists_of_bind hrun
  obtain ⟨M₂, -, -, ⟨e, -, herror⟩ | ⟨hprogram, -, hoptimize⟩⟩ :=
    hM.solveFor hm (.int 0) .null "bound"
  · rw [herror] at hsolve
    cases hsolve
  · rw [hoptimize] at hsolve
    refine ⟨M₂.program, ?_⟩
    simp only [Run.on, optimize] at hsolve
    split at hsolve
    · next o ho =>
      cases hsolve
      exact ⟨o, hprogram, ho, Except.ok.inj (congrArg Prod.fst hvalue)⟩
    · cases hsolve

end Stage

/-! ### The program of the bound -/

namespace Multistage

variable [Numeral α] {P₀ P P' : Multistage α} {b : α} {bs : List α} {lp : Solver α} {sense : Sense}

def IsRoot (P₀ : Multistage α) (Q : Program α) : Prop :=
  ∃ m cuts, P₀.stageAt 0 0 = some m ∧ Q.anonymous = (m.request none (.int 0) cuts).anonymous

/-- Whether a number is no better than any point of the program of the bound with the stored
cuts. -/
def BelowRoot (P₀ P : Multistage α) (b : α) : Prop :=
  ∀ m, P₀.stageAt 0 0 = some m → ∀ y, (m.request none (.int 0) (P.cutsAt 0 0)).Feasible y →
    m.sense.orient b ≤ m.sense.orient (m.program.objective y)

structure Bounding (P₀ : Multistage α) (bs : List α) (P : Multistage α) : Prop where
  kept : P₀.Kept P
  below : ∀ b ∈ bs, P₀.BelowRoot P b

def ExactFor (P₀ : Multistage α) (lp : Solver α) : Prop :=
  ∀ Q o, P₀.IsRoot Q → lp Q = .optimal o → Q.IsOptimum o

omit [Field α] [LinearOrder α] [Numeral α] in
theorem cutsAt_eq_of_poolAt {t k : ℕ} (h : P.poolAt t k = P'.poolAt t k) :
    P.cutsAt t k = P'.cutsAt t k := by
  have hcuts (P : Multistage α) : P.cutsAt t k = ((P.poolAt t k).map Pool.cuts).getD [] := by
    rw [cutsAt, poolAt]
    rcases P.stageAt t k with _ | m
    · rfl
    · cases hctg : m.costToGo <;> simp [Stage.pool?, hctg]
  rw [hcuts, hcuts, h]

theorem Bounding.mono (h : P₀.Bounding bs P) (hkept : P₀.Kept P')
    (hcuts : P.cutsAt 0 0 ⊆ P'.cutsAt 0 0) :
    P₀.Bounding bs P' :=
  ⟨hkept, fun b hb m hm y hy => h.below b hb m hm y (Stage.feasible_of_subset hcuts hy)⟩

omit [Numeral α] in
/-- A pool that does not prune keeps what it has. -/
theorem subset_add {pool : Pool α} (hpruning : pool.pruning = false) (c : Cut α) :
    pool.cuts ⊆ ((Pool.add c).on pool).2.cuts := by
  have hcuts : ((Pool.add c).on pool).2.cuts = pool.cuts ++
      [{ c with index := some pool.issued }] := by
    simp [Run.on, Pool.add, hpruning]
  rw [hcuts]
  exact List.subset_append_left _ _

theorem add_cuts_subset (hroot : ∀ m, P₀.stageAt 0 0 = some m → m.Aimed sense false)
    (hP : P₀.Kept P) (t k : ℕ) (c : Cut α) :
    P.cutsAt 0 0 ⊆ ((onModel t k (Stage.onPool (Pool.add c))).on P).2.cutsAt 0 0 := by
  rcases hM : P.stageAt t k with _ | M
  · rw [onModel_on_none hM]
    exact List.Subset.refl _
  rw [onModel_on_some hM]
  by_cases hhere : 0 = t ∧ 0 = k
  · obtain ⟨rfl, rfl⟩ := hhere
    rw [cutsAt_eq hM, cutsAt_eq (stageAt_put_self hM _)]
    rcases hctg : M.costToGo with _ | ctg
    · rw [Stage.onPool_on_none hctg]
      exact List.Subset.refl _
    · obtain ⟨m, hm, hbare⟩ : ∃ m, P₀.stageAt 0 0 = some m ∧ M.bare = m.bare := by
        rcases hm : P₀.stageAt 0 0 with _ | m
        · rw [hP.stageAt_none hm] at hM
          cases hM
        · exact ⟨m, rfl, (hP.models 0 0 m M hm hM).frame⟩
      have hpruning : ctg.pool.pruning = false := by
        have hcostToGo : M.costToGo.map CostToGo.bare = m.costToGo.map CostToGo.bare :=
          (congrArg Stage.costToGo hbare :)
        rw [hctg] at hcostToGo
        obtain ⟨ctg₀, hctg₀, hsame⟩ := Option.map_eq_some_iff.mp hcostToGo.symm
        have hpool : ctg₀.pool.pruning = ctg.pool.pruning :=
          (congrArg (fun ctg : CostToGo α => ctg.pool.pruning) hsame :)
        rw [← hpool, (hroot m hm).pruning ctg₀ hctg₀]
      rw [Stage.onPool_on_some hctg, Stage.cuts, Stage.cuts, Stage.pool?, Stage.pool?, hctg]
      exact subset_add hpruning c
  · have hsame : (P.put t k ((Stage.onPool (Pool.add c)).on M).2).poolAt 0 0 = P.poolAt 0 0 := by
      rw [poolAt_put hM, if_neg hhere]
    rw [cutsAt_eq_of_poolAt hsame]
    exact List.Subset.refl _

theorem elementary_bounding (hP₀ : P₀.Fresh)
    (hroot : ∀ m, P₀.stageAt 0 0 = some m → m.Aimed sense false) (bs : List α) :
    Elementary (P₀.Bounding bs) := by
  refine hP₀.elementary (fun _ h => h.kept) (fun P P' hsame h => ?_) (fun _ b h => ?_)
    (fun _ x h => ?_)
    fun t k c => Keeps.iff_on.mpr fun P hP => ?_
  · refine h.mono hsame.left ?_
    rw [cutsAt_eq_of_poolAt (hsame.pool 0 0)]
    exact List.Subset.refl _
  · exact h.mono (h.kept.withBound b) (List.Subset.refl _)
  · exact h.mono ⟨h.kept.frame, h.kept.models⟩ (List.Subset.refl _)
  · exact hP.mono (Keeps.iff_on.mp (hP₀.elementary_kept.add t k c) P hP.kept)
      (add_cuts_subset hroot hP.kept t k c)

/-- A new bound is no worse than the earlier ones, and below the program that it comes from. -/
theorem computeBound_bounding (hP₀ : P₀.Fresh)
    (hroot : ∀ m, P₀.stageAt 0 0 = some m → m.Aimed sense false) (hlp : P₀.ExactFor lp)
    (bs : List α) :
    Triple (P₀.Bounding bs) (computeBound lp)
      (fun b P => P₀.Bounding (bs ++ [b]) P ∧ ∀ b' ∈ bs, sense.orient b' ≤ sense.orient b)
      (P₀.Bounding bs) := by
  intro P hP
  obtain ⟨hok, herror⟩ := (elementary_bounding hP₀ hroot bs).computeBound lp P hP
  refine ⟨fun b P' hrun => ?_, herror⟩
  have hP' := hok b P' hrun
  rcases hm : P₀.stageAt 0 0 with _ | m
  · rw [computeBound, onModel_on_none (hP.kept.stageAt_none hm)] at hrun
    cases hrun
  obtain ⟨M, hM, hkept⟩ := hP.kept.stageAt_some hm
  have hsame := Keeps.iff_on.mp (computeBound_keepsCuts hP₀.toSettled lp) P hP.kept.sameCuts
  rw [hrun] at hsame
  have hcuts : P'.cutsAt 0 0 = M.cuts := (cutsAt_eq_of_poolAt (hsame.pool 0 0)).trans (cutsAt_eq hM)
  change (onModel 0 0 (Stage.estimate lp)).on P = _ at hrun
  rw [onModel_on_some hM] at hrun
  have hestimate : (Stage.estimate lp).on M = (.ok b, ((Stage.estimate lp).on M).2) :=
    Prod.ext (congrArg Prod.fst hrun :) rfl
  obtain ⟨Q, o, hQ, ho, rfl⟩ := Stage.estimate_ok (hP₀.models 0 0 m hm)
    (hkept.unlinked (hP₀.first 0 m hm)) hestimate
  have hoptimum := hlp Q o ⟨m, M.cuts, hm, hQ⟩ ho
  have hobjective (y : List α) : Q.objective y = m.program.objective y :=
    (congrArg (fun Q : Program α => Q.objective y) hQ :)
  have hQsense : Q.sense = m.sense := (congrArg Program.sense hQ :)
  have hpoint : (m.request none (.int 0) (P'.cutsAt 0 0)).Feasible o.point :=
    hcuts ▸ Program.feasible_of_anonymous hQ hoptimum.feasible
  refine ⟨⟨hP'.kept, fun b hb => ?_⟩, fun b hb => ?_⟩
  · rcases List.mem_append.mp hb with hb | hb
    · exact hP'.below b hb
    · obtain rfl := List.mem_singleton.mp hb
      intro m' hm' y hy
      obtain rfl := Option.some.inj (hm.symm.trans hm')
      have hleast := hoptimum.least y (Program.feasible_of_anonymous hQ.symm (hcuts ▸ hy))
      rwa [hQsense, hobjective] at hleast
  · have hbelow := hP'.below b hb m hm o.point hpoint
    rwa [(hroot m hm).sense, ← hobjective, hoptimum.value] at hbelow

end Multistage

/-! ### Sessions -/

namespace Session

variable [Numeral α] {P₀ : Multistage α} {lp : Solver α} {sense : Sense} {bs : List α}
  {r : Record α} {x y : Session γ α}

/-- A session whose bounds never got worse, and none of which is above the program of the next
one. -/
structure Monotone (P₀ : Multistage α) (sense : Sense) (x : Session γ α) : Prop where
  problem : P₀.Bounding x.record.bounds x.simulation.problem
  bounds : x.record.bounds.Pairwise fun b b' => sense.orient b ≤ sense.orient b'

structure Awaits (P₀ : Multistage α) (sense : Sense) (b : α) (x : Session γ α) : Prop where
  problem : P₀.Bounding (x.record.bounds ++ [b]) x.simulation.problem
  bounds : ∀ b' ∈ x.record.bounds, sense.orient b' ≤ sense.orient b

omit [Field α] [LinearOrder α] [Numeral α] in
theorem onProblem_record {I E : Multistage α → Prop} {Q : β → Multistage α → Prop}
    {act : Run α (Multistage α) β}
    (h : Triple I act Q E) : Triple (fun x : Session γ α => I x.simulation.problem ∧ x.record = r)
    (onProblem act)
      (fun b x => Q b x.simulation.problem ∧ x.record = r)
      fun x => E x.simulation.problem ∧ x.record = r := by
  intro x hx
  obtain ⟨hok, herror⟩ := h x.simulation.problem hx.1
  refine ⟨fun b y hrun => ?_, fun e y hrun => ?_⟩ <;> obtain ⟨hanswer, rfl⟩ := Prod.mk.inj hrun
  · exact ⟨hok b _ (Prod.ext hanswer rfl), hx.2⟩
  · exact ⟨herror e _ (Prod.ext hanswer rfl), hx.2⟩

theorem keep_monotone (b : α) (values : List α) (signal : Signal) :
    Triple (fun x : Session γ α => Monotone P₀ sense x ∧ Awaits P₀ sense b x) (keep b values signal)
      (fun _ => Monotone P₀ sense) (Monotone P₀ sense) := by
  refine keep_triple_of (I := Monotone P₀ sense) (fun x hx => ⟨hx.2.problem, ?_⟩) (fun x hx => ?_)
    (fun _ _ hx => ⟨hx.problem, hx.bounds⟩) values signal
  · refine List.pairwise_append.mpr ⟨hx.1.bounds, List.pairwise_singleton _ _,
      fun b' hb' b'' hb'' => ?_⟩
    obtain rfl := List.mem_singleton.mp hb''
    exact hx.2.bounds b' hb'
  · exact ⟨⟨hx.problem.kept.withBound _, hx.problem.below⟩, hx.bounds⟩

theorem onProblem_monotone {act : Run α (Multistage α) β} (h : ∀ bs, Keeps (P₀.Bounding bs) act) :
    Keeps (Monotone (γ := γ) P₀ sense) (onProblem act) :=
  Keeps.iff_on.mpr fun x hx => ⟨Keeps.iff_on.mp (h x.record.bounds) _ hx.problem, hx.bounds⟩

variable (hP₀ : P₀.Fresh) (hroot : ∀ m, P₀.stageAt 0 0 = some m → m.Aimed sense false)
include hP₀ hroot

theorem computeBound_awaits (hlp : P₀.ExactFor lp) :
    Triple (Monotone (γ := γ) P₀ sense) (onProblem (Multistage.computeBound lp))
      (fun b x => Monotone P₀ sense x ∧ Awaits P₀ sense b x) (Monotone P₀ sense) := by
  intro x hx
  have hbound := onProblem_record (γ := γ) (r := x.record)
    (Multistage.computeBound_bounding hP₀ hroot hlp x.record.bounds) x ⟨hx.problem, rfl⟩
  refine ⟨fun b y hrun => ?_, fun e y hrun => ?_⟩
  · obtain ⟨⟨hproblem, hbounds⟩, hrecord⟩ := hbound.1 b y hrun
    refine ⟨⟨⟨hproblem.kept, fun b' hb' => ?_⟩, hrecord ▸ hx.bounds⟩, hrecord ▸ hproblem,
      hrecord ▸ hbounds⟩
    exact hproblem.below b' (List.mem_append_left _ (hrecord ▸ hb'))
  · obtain ⟨hproblem, hrecord⟩ := hbound.2 e y hrun
    exact ⟨hrecord ▸ hproblem, hrecord ▸ hx.bounds⟩

theorem Monotone.work (h : Monotone P₀ sense x) {P : Multistage α}
    (hwork : x.simulation.problem.Work P) :
    Monotone P₀ sense { x with simulation := { x.simulation with problem := P } } :=
  ⟨(Multistage.elementary_bounding hP₀ hroot x.record.bounds).work hwork h.problem, h.bounds⟩

variable [Source γ α] [Inference α]

omit [Inference α] in
theorem improve_monotone (hlp : P₀.ExactFor lp) (o : TrainingPlan α) (signal : Signal) :
    Triple (Monotone (γ := γ) P₀ sense) (improve lp o signal)
      (fun r x => Monotone P₀ sense x ∧ Awaits P₀ sense r.1 x) (Monotone P₀ sense) := by
  have htwins (bs : List α) := (Multistage.elementary_bounding hP₀ hroot bs).twins lp
  have hsource : Keeps (Monotone (γ := γ) P₀ sense) (onSource (Source.draw Multistage.seedLimit)) :=
    Keeps.iff_on.mpr fun x hx => ⟨hx.problem, hx.bounds⟩
  refine Triple.bind hsource fun seed => Triple.get_bind_any fun x => ?_
  refine Triple.bind (onProblem_monotone fun bs => Run.Coupled.self_iff.mp
    ((htwins bs).walkJobs (fun _ => Guide.random_plain) seed _ _ _)) fun walks => ?_
  refine Triple.bind (onProblem_monotone fun bs => Run.Coupled.self_iff.mp
    ((htwins bs).refineAll walks signal.passes?)) fun _ => ?_
  apply Triple.bind (computeBound_awaits hP₀ hroot hlp)
  intro b
  exact Triple.bind (Triple.breakOff (fun _ _ hx => hx) fun _ _ hx => hx.1) fun _ =>
    Triple.pure fun x hx => hx

theorem invariant_monotone (hlp : P₀.ExactFor lp) :
    Invariant lp (Monotone (γ := γ) P₀ sense) (Awaits P₀ sense) where
  improve := improve_monotone hP₀ hroot hlp
  keep := keep_monotone
  evaluate := fun o limit => Keeps.iff_on.mpr fun x hx => by
    have htwins := (Multistage.elementary_bounding hP₀ hroot x.record.bounds).twins lp
    exact ⟨Keeps.iff_on.mp (evaluate_keeps_of htwins.toWalkTwins o limit) x hx.problem, hx.bounds⟩
  count := fun _ _ hx => ⟨hx.problem, hx.bounds⟩
  journal := fun _ _ hx => ⟨hx.problem, hx.bounds⟩

theorem trainSeeded_monotone (hlp : P₀.ExactFor lp) (o : TrainingPlan α) (seed : Datum α) :
    Keeps (Monotone (γ := γ) P₀ sense) (trainSeeded lp o seed) := by
  have hprepare : Keeps (Monotone (γ := γ) P₀ sense) (onProblem Multistage.prepare) :=
    onProblem_monotone fun bs => (Multistage.elementary_bounding hP₀ hroot bs).prepare
  refine (invariant_monotone hP₀ hroot hlp).trainSeeded_keeps hprepare
    (fun x record hrecord hx => ?_) (fun x _ hx => ?_) o seed
  · exact ⟨hrecord.symm ▸ hx.problem, hrecord.symm ▸ hx.bounds⟩
  · exact ⟨hx.problem, hx.bounds⟩

end Session

/-! ### Runs -/

namespace Session

variable [Numeral α]

/-- A step of a session on a problem that became of `P₀`: training, a bound that is recorded, be it
cut short, or any other work on the problem, but no removal of cuts. Each step may have a solver and
an inference of its own, as long as a solver whose bounds are recorded finds optimal ones. -/
inductive Step (P₀ : Multistage α) : Session γ α → Session γ α → Prop
  | train [Source γ α] [Inference α] {lp : Solver α} (hlp : P₀.ExactFor lp) (o : TrainingPlan α)
    (seed : Datum α)
    (x : Session γ α) : Step P₀ x ((trainSeeded lp o seed).on x).2
  | measure {lp : Solver α} (hlp : P₀.ExactFor lp) (values : List α) (signal : Signal)
    (x : Session γ α) :
    Step P₀ x ((do keep (← onProblem (Multistage.computeBound lp)) values signal).on x).2
  | work (x : Session γ α) {P : Multistage α} (h : x.simulation.problem.Work P) :
    Step P₀ x { x with simulation := { x.simulation with problem := P } }

variable {p P₀ : Multistage α} {sense : Sense} {x y : Session γ α}

theorem Monotone.step (h : Monotone P₀ sense x) (hP₀ : P₀.Fresh)
    (hroot : ∀ m, P₀.stageAt 0 0 = some m → m.Aimed sense false) (hstep : Step P₀ x y) :
    Monotone P₀ sense y := by
  cases hstep with
  | train hlp o seed => exact Keeps.iff_on.mp (trainSeeded_monotone hP₀ hroot hlp o seed) x h
  | measure hlp values signal =>
    have hmeasure : Keeps (Monotone (γ := γ) P₀ sense) _ :=
      Triple.bind (computeBound_awaits hP₀ hroot hlp) fun b => keep_monotone b values signal
    exact Keeps.iff_on.mp hmeasure x h
  | work _ hwork => exact h.work hP₀ hroot hwork

/-- The recorded bounds never get worse, within a training and from one training to the next,
whatever is done in between, as long as no cut is removed. -/
theorem bounds_monotone (hp : ∀ t k m, p.stageAt t k = some m → m.WellFormed ∧ m.sense = p.sense)
    (hpruning : p.pruning = false) (hprepare : Multistage.prepare.on p = (.ok (), P₀)) (source : γ)
    (hrun : Relation.ReflTransGen (Step P₀) (Session.new P₀ source) x) :
    x.record.bounds.Pairwise fun b b' => p.sense.orient b ≤ p.sense.orient b' := by
  have hP₀ := (Multistage.settled_of_wellFormed fun t k m hm => (hp t k m hm).1).fresh hprepare
  have hroot (m : Stage α) (hm : P₀.stageAt 0 0 = some m) : m.Aimed p.sense false :=
    hpruning ▸ Multistage.aimed_of_prepare hp hprepare hm
  have hmonotone : Monotone P₀ p.sense x := by
    induction hrun with
    | refl => exact ⟨⟨hP₀.toSettled.kept, fun _ hb => absurd hb List.not_mem_nil⟩, .nil⟩
    | tail _ hstep ih => exact ih.step hP₀ hroot hstep
  exact hmonotone.bounds

end Session

/-! ### A training, a cut by hand and a bound -/

namespace Problems

def fullShortage : Multistage ℚ := { shortage with pruning := false }

def fullSession : Session ℕ ℚ := Session.new (Multistage.prepare.on fullShortage).2 0

theorem fullShortage_prepared :
    Multistage.prepare.on fullShortage = (.ok (), fullSession.simulation.problem) :=
  Run.on_of_isOk (by decide +kernel)

theorem stockOptimum_exact : fullSession.simulation.problem.ExactFor stockOptimum.verified :=
  fun _ _ _ ho => stockOptimum.verified_exact.isOptimum ho

def fullTrained : Session ℕ ℚ :=
  ((Session.trainSeeded stockOptimum.verified
    { shortagePlan with maxIterations := .int 1 } .null).on fullSession).2

def fullMeasured : Session ℕ ℚ :=
  let cut : Cut ℚ :=
    { stage := 0, markovState := 0, intercept := 3 / 2, slopes := [-1 / 2], noiseSlopes := [],
      index := none }
  let P :=
    ((Multistage.onModelAt 0 0 (Stage.onPool (Pool.add cut))).on fullTrained.simulation.problem).2
  let x := { fullTrained with simulation := { fullTrained.simulation with problem := P } }
  ((do
    let bound ← Session.onProblem (Multistage.computeBound stockOptimum.verified)
    Session.keep bound [] .none).on x).2

theorem fullMeasured_reached :
    Relation.ReflTransGen (Session.Step fullSession.simulation.problem) fullSession
      fullMeasured := by
  refine .tail (.tail (.single ?_) (.work fullTrained (.add 0 0 _ _)))
    (.measure stockOptimum_exact [] .none _)
  exact .train stockOptimum_exact _ _ _

end Problems

open Problems in
theorem Session.bounds_monotone_shortage : fullMeasured.record.bounds = [1, 3 / 2] ∧
    fullMeasured.record.bounds.Pairwise
      fun b b' => fullShortage.sense.orient b ≤ fullShortage.sense.orient b' :=
  ⟨by decide +kernel, Session.bounds_monotone (fun t k m hm => by
    obtain ⟨-, rfl⟩ | ⟨-, rfl⟩ := stageAt_shortage hm
    · exact ⟨purchase_wellFormed, rfl⟩
    · exact ⟨demand_wellFormed, rfl⟩) rfl fullShortage_prepared 0 fullMeasured_reached⟩

end Recourse
