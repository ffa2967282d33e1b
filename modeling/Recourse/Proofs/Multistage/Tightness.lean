import Recourse.Proofs.Multistage.Weighing
import Recourse.Proofs.Stage.Answers

/-! Backward passes. At each stage all outcomes of the next stage are found at the trial point, and
a cut is handed to each reachable Markov state. The work on the models leaves everything but the
pools as it was, so a pass is followed on the pools: the last stage is worked on first, and the
steps that come later touch the pools of earlier stages only. -/

namespace Recourse

open RiskMeasure (Distribution)
open Run (Keeps Triple)

variable {α : Type}

namespace Multistage

/-! ### Outcomes of a stage -/

section

variable [Scalar α] {P₀ P P' : Multistage α} {lp : Solver α} {t j k : ℕ} {state : List α}
  {noise : Option (List α)}

/-- An outcome of a stage at a trial point, if the models of the problem `P₀` store the cuts of
`P`. -/
def AnswersAt (P₀ P : Multistage α) (lp : Solver α) (t : ℕ) (state : List α)
    (noise : Option (List α)) (place : ℕ × ℕ) (result : α × List α) : Prop :=
  ∃ m, P₀.stageAt t place.1 = some m ∧ m.Answers (some (state, noise)) lp
      (P.cutsAt t place.1) place.2 result

omit [Scalar α] in
theorem cutsAt_eq_poolAt (P : Multistage α) (t k : ℕ) :
    P.cutsAt t k = ((P.poolAt t k).map Pool.cuts).getD [] := by
  rw [cutsAt, poolAt]
  rcases P.stageAt t k with _ | m
  · rfl
  · change _ = ((m.costToGo.map CostToGo.pool).map Pool.cuts).getD []
    rw [Option.map_map]
    rfl

variable [Numeral α]

theorem outcomes_answersAt (hP₀ : P₀.Settled) :
    Triple (P₀.SameCuts · P) (outcomes lp t k state noise)
      (fun o P' => P₀.SameCuts P' P ∧ ∃ results,
        List.Forall₂ (P₀.AnswersAt P lp t state noise) (P₀.placesOf t k) results ∧
        o = { values := results.map (·.1), gradients := results.map (·.2) })
      (P₀.SameCuts · P) := by
  intro P' hP'
  have hkept := Keeps.iff_on.mp (outcomes_keepsCuts hP₀ lp t k state noise) P' hP'
  refine ⟨fun o P'' hrun => ⟨by rwa [hrun] at hkept, ?_⟩, fun e P'' hrun => by rwa [hrun] at hkept⟩
  rcases hm : P₀.stageAt t k with _ | m
  · rw [outcomes, onModel_on_none (hP'.left.stageAt_none hm)] at hrun
    cases hrun
  obtain ⟨M, hM, hkeptM⟩ := hP'.left.stageAt_some hm
  rw [outcomes, onModel_on_some hM] at hrun
  obtain ⟨results, hresults, rfl⟩ :=
    (Stage.outcomes_answers (hP₀.models t k m hm) state noise M.pool? M ⟨hkeptM, rfl⟩).1 o _
      (Prod.ext (Prod.mk.inj hrun).1 rfl)
  have hcuts : (M.pool?.map Pool.cuts).getD [] = P.cutsAt t k := by
    rw [cutsAt_eq_poolAt, ← hP'.pool t k, poolAt, hM]
    rfl
  refine ⟨results, ?_, rfl⟩
  rw [placesOf, hm, List.forall₂_map_left_iff]
  exact hresults.imp fun s result hanswer => ⟨m, hm, hcuts ▸ hanswer⟩

end

/-! ### What becomes of the pools -/

section

variable [Field α] [LinearOrder α] [Numeral α] {P₀ P P' Q Q' : Multistage α} {lp : Solver α}
  {t j k n : ℕ} {state : List α}
  {noise : Option (List α)} {r r' : Except (Fault α) Unit} {results : List (α × List α)}

/-- What the measure of a stage makes of its outcomes, as they look from a Markov state of the stage
before. Each outcome is weighed with the probability of the move to its Markov state and of its
sample there. -/
def Judges (P : Multistage α) (t j : ℕ) (results : List (α × List α)) (total : Aggregate α) :
    Prop :=
  ∃ choice measure, P.measures[t]? = some choice ∧ choice.measure = .ok measure ∧
    measure.apply P.sense (results.map (·.1)) (results.map (·.2))
    (some ((P.places t).map (P.placeWeight t j))) = .ok total

/-- A cut is handed to the pool of a place. It goes through what is made of the outcomes of the next
stage, at the trial point that they were found at. -/
def Tightens (P₀ P P' : Multistage α) (t j : ℕ) (state : List α) (noise : Option (List α))
    (results : List (α × List α)) : Prop :=
  ∃ total c pool, P₀.Judges (t + 1) j results total ∧
    c.Touches (P₀.isLagged (t + 1)) total state noise ∧
    P.poolAt t j = some pool ∧ P'.poolAt t j = some ((Pool.add c).on pool).2

/-- A stage is refined at a trial point: all outcomes of the next stage were found there, and a cut
is handed to each reachable Markov state. Only if that fails some Markov states may go without
one. -/
def RefinedAt (P₀ : Multistage α) (lp : Solver α) (t : ℕ) (state : List α) (noise : Option (List α))
    (P : Multistage α) (r : Except (Fault α) Unit) (P' : Multistage α) : Prop :=
  ∃ results, List.Forall₂ (P₀.AnswersAt P' lp (t + 1) state noise) (P₀.places (t + 1)) results ∧
    ∀ j ∈ P₀.reachableStates t,
      r ≠ .ok () ∧ P'.poolAt t j = P.poolAt t j ∨ P₀.Tightens P P' t j state noise results

/-- The first stages are refined at trial points that are told stage by stage. Only if that fails
some stages may be left as they are. -/
def Refined (P₀ : Multistage α) (lp : Solver α) (stateAt : ℕ → Except (Fault α) (List α))
    (noiseAt : ℕ → Except (Fault α) (Option (List α))) (n : ℕ) (P : Multistage α)
    (r : Except (Fault α) Unit) (P' : Multistage α) : Prop :=
  ∀ t < n, (r ≠ .ok () ∧ ∀ j, P'.poolAt t j = P.poolAt t j) ∨
    ∃ state noise, stateAt t = .ok state ∧ noiseAt t = .ok noise ∧
      P₀.RefinedAt lp t state noise P r P'

theorem Weighted.cutFor_touches (hw : P.Weighted) {c : Cut α}
    (h : P.cutFor (t + 1) j { values := results.map (·.1), gradients := results.map (·.2) } state
      noise = .ok c) :
    ∃ total m ctg, P.Judges (t + 1) j results total ∧ P.stageAt t j = some m ∧
    m.costToGo = some ctg ∧
      c.Touches ctg.lagged total state noise := by
  obtain ⟨total, htotal, h⟩ := ok_of_bind h
  obtain ⟨m, hm, hcut⟩ := ok_of_bind h
  obtain ⟨weights, hweights, htotal⟩ := ok_of_bind htotal
  obtain ⟨choice, hchoice, htotal⟩ := ok_of_bind htotal
  obtain ⟨measure, hmeasure, htotal⟩ := ok_of_bind htotal
  obtain rfl := hw.outcomeProbabilities_eq hweights
  rcases hctg : m.costToGo with _ | ctg <;> simp only [Stage.newCut, hctg] at hcut
  · cases hcut
  · exact ⟨total, m, ctg, ⟨choice, measure, entryAt_ok hchoice, hmeasure, htotal⟩,
      model_ok hm, hctg,
      Stage.touches_of_buildCut hcut⟩

omit [Numeral α] in
theorem RefinedAt.congr (h : P₀.RefinedAt lp t state noise P r P')
    (hP : ∀ k, Q.poolAt t k = P.poolAt t k)
    (hP' : ∀ k, Q'.poolAt t k = P'.poolAt t k)
    (hnext : ∀ k, Q'.poolAt (t + 1) k = P'.poolAt (t + 1) k) (hr : r ≠ .ok () → r' ≠ .ok ()) :
    P₀.RefinedAt lp t state noise Q r' Q' := by
  obtain ⟨results, hresults, hpools⟩ := h
  refine ⟨results, hresults.imp fun place result hanswer => ?_, fun j hj => ?_⟩
  · obtain ⟨m, hm, hanswer⟩ := hanswer
    refine ⟨m, hm, ?_⟩
    rwa [cutsAt_eq_poolAt, hnext, ← cutsAt_eq_poolAt]
  · rw [Tightens, hP, hP']
    exact (hpools j hj).imp_left fun h => ⟨hr h.1, h.2⟩

section

variable (hP₀ : P₀.Fresh)
include hP₀

theorem forM_refineAt_pools {found : Outcomes α} {js : List ℕ} (hjs : js.Nodup) (hP : P₀.Kept P)
    (h : (js.forM fun j => refineAt (t + 1) j found state noise).on P = (r, P')) :
    P₀.Kept P' ∧ (∀ t' k', ¬ (t' = t ∧ k' ∈ js) → P'.poolAt t' k' = P.poolAt t' k') ∧
      ∀ j ∈ js, r ≠ .ok () ∧ P'.poolAt t j = P.poolAt t j ∨ ∃ (c : Cut α) (pool : Pool α),
        P₀.cutFor (t + 1) j found state noise = .ok c ∧ P.poolAt t j = some pool ∧
          P'.poolAt t j = some ((Pool.add c).on pool).2 := by
  induction js generalizing P with
  | nil =>
    obtain ⟨rfl, rfl⟩ := Prod.mk.inj h
    exact ⟨hP, fun _ _ _ => rfl, fun _ hj => absurd hj List.not_mem_nil⟩
  | cons i js ih =>
    obtain ⟨hi, hjs⟩ := List.nodup_cons.mp hjs
    have hkept := Keeps.iff_on.mp (hP₀.elementary_kept.refineAt (t + 1) i found state noise) P hP
    change (refineAt (t + 1) i found state noise >>=
      fun _ => js.forM fun j => refineAt (t + 1) j found state noise).on P =
      (r, P') at h
    rcases hone : (refineAt (t + 1) i found state noise).on P with ⟨e | _, P₁⟩
    · rw [hone] at hkept
      rw [Run.bind_error _ hone] at h
      obtain ⟨rfl, rfl⟩ := Prod.mk.inj h
      obtain ⟨-, helsewhere, hhere⟩ := refineAt_pools hone
      rw [hP.cutFor_eq] at hhere
      refine ⟨hkept, fun t' k' hne => helsewhere t' k'
        fun h => hne ⟨h.1, h.2 ▸ List.mem_cons_self⟩, fun j hj => ?_⟩
      rcases List.mem_cons.mp hj with rfl | hj
      · exact hhere
      · exact .inl ⟨nofun, helsewhere t j fun h => hi (h.2 ▸ hj)⟩
    · rw [hone] at hkept
      rw [Run.bind_ok _ hone] at h
      obtain ⟨-, helsewhere, hhere⟩ := refineAt_pools hone
      rw [hP.cutFor_eq] at hhere
      obtain ⟨hkept', hlater, hmore⟩ := ih hjs hkept h
      refine ⟨hkept', fun t' k' hne => ?_, fun j hj => ?_⟩
      · rw [hlater t' k' fun h => hne ⟨h.1, List.mem_cons_of_mem i h.2⟩]
        exact helsewhere t' k' fun h => hne ⟨h.1, h.2 ▸ List.mem_cons_self⟩
      · rcases List.mem_cons.mp hj with rfl | hj
        · rw [hlater t j fun h => hi h.2]
          exact .inr (hhere.resolve_left fun h => h.1 rfl)
        · rw [← helsewhere t j fun h => hi (h.2 ▸ hj)]
          exact hmore j hj

theorem refineStage_pools (hproportioned : P₀.Proportioned) (hw : P₀.Weighted) (hP : P₀.Kept P)
    (ht : t + 1 < P₀.horizon) (h : (refineStage lp (t + 1) state noise).on P = (r, P')) :
    P₀.Kept P' ∧ (∀ t' k, t' ≠ t → P'.poolAt t' k = P.poolAt t' k) ∧
      ((r ≠ .ok () ∧ ∀ j, P'.poolAt t j = P.poolAt t j) ∨
        P₀.RefinedAt lp t state noise P r P') := by
  have hstates (t : ℕ) : P.reachableStates t = P₀.reachableStates t :=
    reachableStates_of_frame hP.frame t
  rw [refineStage, Run.bind_ok _ (Run.get_on P), Nat.add_sub_cancel, hstates, hstates] at h
  have hsolve : Triple (P₀.SameCuts · P)
      ((P₀.reachableStates (t + 1)).mapM fun k => outcomes lp (t + 1) k state noise) _ _ :=
    Triple.mapM fun k _ => outcomes_answersAt hP₀.toSettled
  rcases hfound : ((P₀.reachableStates (t + 1)).mapM fun k => outcomes lp (t + 1) k state noise).on
    P with ⟨e | found, P₁⟩
  · rw [Run.bind_error _ hfound] at h
    obtain ⟨rfl, rfl⟩ := Prod.mk.inj h
    have hsame := (hsolve P hP.sameCuts).2 e P₁ hfound
    exact ⟨hsame.left, fun t' k _ => hsame.pool t' k, .inl ⟨by simp, fun j => hsame.pool t j⟩⟩
  rw [Run.bind_ok _ hfound] at h
  obtain ⟨hsame, hanswers⟩ := (hsolve P hP.sameCuts).1 found P₁ hfound
  obtain ⟨results, hresults, hgather⟩ := gather_of_found hanswers
  obtain ⟨hkept, hothers, hpools⟩ := forM_refineAt_pools hP₀ (nodup_reachableStates t) hsame.left h
  have hother (t' k : ℕ) (hne : t' ≠ t) : P'.poolAt t' k = P.poolAt t' k := by
    rw [hothers t' k fun h => hne h.1, hsame.pool]
  refine ⟨hkept, hother, .inr ⟨results, hresults.imp
    fun place result hanswer => ?_, fun j hj => ?_⟩⟩
  · obtain ⟨m, hm, hanswer⟩ := hanswer
    refine ⟨m, hm, ?_⟩
    rwa [cutsAt_eq_poolAt, hother _ _ (Nat.succ_ne_self t), ← cutsAt_eq_poolAt]
  · rw [← hsame.pool t j]
    refine (hpools j hj).imp_right ?_
    rintro ⟨c, pool, hcut, hpool, hadded⟩
    rw [hgather] at hcut
    obtain ⟨total, m, ctg, hjudges, hm, hctg, htouches⟩ := hw.cutFor_touches hcut
    obtain ⟨ctg', hctg', hlagged, -⟩ := hproportioned.exists_costToGo ht hj hm
    obtain rfl := Option.some.inj (hctg.symm.trans hctg')
    exact ⟨total, c, pool, hjudges, hlagged ▸ htouches, hsame.pool t j ▸ hpool, hadded⟩

/-- A pass backward, however it ends and however it is told the trial points. -/
theorem pass_pools {pass : ℕ → Run α (Multistage α) Unit} {stateAt : ℕ → Except (Fault α) (List α)}
    {noiseAt : ℕ → Except (Fault α) (Option (List α))} (hzero : pass 0 = pure ())
    (hsucc : ∀ t, pass (t + 1) = do
      let state ← Run.ofExcept (stateAt t)
      let noise ← Run.ofExcept (noiseAt t)
      refineStage lp (t + 1) state noise
      pass t)
    (hproportioned : P₀.Proportioned) (hw : P₀.Weighted) (hP : P₀.Kept P) (hn : n < P₀.horizon)
    (h : (pass n).on P = (r, P')) :
    (∀ t k, n ≤ t → P'.poolAt t k = P.poolAt t k) ∧ P₀.Refined lp stateAt noiseAt n P r P' := by
  induction n generalizing P with
  | zero =>
    rw [hzero] at h
    obtain ⟨rfl, rfl⟩ := Prod.mk.inj h
    exact ⟨fun _ _ _ => rfl, fun _ ht => absurd ht (Nat.not_lt_zero _)⟩
  | succ n ih =>
    -- what fails before the outcomes are found leaves all pools as they are
    have huntouched {e : Fault α} : (∀ t k, n + 1 ≤ t → P.poolAt t k = P.poolAt t k) ∧
        P₀.Refined lp stateAt noiseAt (n + 1) P (.error e) P :=
      ⟨fun _ _ _ => rfl, fun _ _ => .inl ⟨nofun, fun _ => rfl⟩⟩
    rw [hsucc] at h
    rcases hstate : stateAt n with e | state
    · rw [hstate, Run.bind_error _ (Run.ofExcept_on _ P)] at h
      obtain ⟨rfl, rfl⟩ := Prod.mk.inj h
      exact huntouched
    rw [Run.ofExcept_bind hstate] at h
    rcases hnoise : noiseAt n with e | noise
    · rw [hnoise, Run.bind_error _ (Run.ofExcept_on _ P)] at h
      obtain ⟨rfl, rfl⟩ := Prod.mk.inj h
      exact huntouched
    rw [Run.ofExcept_bind hnoise] at h
    rcases hstep : (refineStage lp (n + 1) state noise).on P with ⟨e | _, P₁⟩
    · obtain ⟨-, hothers, hrefined⟩ := refineStage_pools hP₀ hproportioned hw hP hn hstep
      rw [Run.bind_error _ hstep] at h
      obtain ⟨rfl, rfl⟩ := Prod.mk.inj h
      refine ⟨fun t k ht => hothers t k (by omega), fun t ht => ?_⟩
      rcases Nat.lt_succ_iff_lt_or_eq.mp ht with ht | rfl
      · exact .inl ⟨nofun, fun j => hothers t j ht.ne⟩
      · exact hrefined.imp_right fun h => ⟨state, noise, hstate, hnoise, h⟩
    · obtain ⟨hkept, hothers, hrefined⟩ := refineStage_pools hP₀ hproportioned hw hP hn hstep
      rw [Run.bind_ok _ hstep] at h
      obtain ⟨hlater, hmore⟩ := ih hkept (Nat.lt_of_succ_lt hn) h
      refine ⟨fun t k ht => (hlater t k (by omega)).trans (hothers t k (by omega)), fun t ht => ?_⟩
      rcases Nat.lt_succ_iff_lt_or_eq.mp ht with ht | rfl
      · refine (hmore t ht).imp (fun h => ⟨h.1, fun j => (h.2 j).trans (hothers t j ht.ne)⟩) ?_
        rintro ⟨state, noise, hstate, hnoise, h⟩
        exact ⟨state, noise, hstate, hnoise,
          h.congr (fun k => (hothers t k ht.ne).symm) (fun _ => rfl) (fun _ => rfl) id⟩
      · have hrefined := hrefined.resolve_left fun h => h.1 rfl
        exact .inr ⟨state, noise, hstate, hnoise,
          hrefined.congr (fun _ => rfl) (fun k => hlater t k le_rfl)
          (fun k => hlater (t + 1) k (Nat.le_succ t)) fun h => absurd rfl h⟩

end

end

/-- A pass backward of a prepared problem, whatever was done with the problem before, if the
probabilities of its reachable models were accepted for as many samples as they have. On each stage
that it comes to, all outcomes of the next stage are found at the trial point: for each reachable
Markov state and each of its samples the value and the prices of the links, of the program with the
cuts that are stored there at last. For each reachable Markov state the measure of the next stage is
applied to these outcomes, each with the probability of the move to its Markov state times that of
its sample, and the cut that is handed to the pool there goes through what the measure gives, with
the gradient that it gives. No stage and no reachable Markov state is left out but by a pass that
fails. The probabilities of the outcomes are a distribution if those of the moves and of the samples
are. -/
theorem refine_tight [Field α] [LinearOrder α] [IsStrictOrderedRing α] [Numeral α] {o : Outline α}
    {p P₀ P : Multistage α}
    {steps : List (WriteStep α)} (hcreate : create o = .ok p)
    (hunprepared : (write steps p).prepared = false)
    (hprepare : prepare.on (write steps p) = (.ok (), P₀)) (hw : P₀.Weighted)
    (huse : Relation.ReflTransGen Use P₀ P) (lp : Solver α) :
    (∀ (states : List (List α)) (noises : List (Option (List α))) r P',
      (refine lp states noises).on P = (r, P') →
      P₀.Refined lp (entryAt states) (entryAt noises) (P₀.horizon - 1) P r P') ∧
    (∀ (states noises : Datum α) r P',
      (refineData lp states noises (P₀.horizon - 1)).on P = (r, P') →
      P₀.Refined lp (trialAt states) (noiseAt noises) (P₀.horizon - 1) P r P') ∧
    ∀ t j, t + 1 < P₀.horizon → j ∈ P₀.reachableStates t → Distribution (P₀.moves (t + 1) j) →
      (∀ k ∈ P₀.reachableStates (t + 1),
        ∀ m, P₀.stageAt (t + 1) k = some m → Distribution m.probabilities) →
      Distribution ((P₀.places (t + 1)).map (P₀.placeWeight (t + 1) j)) := by
  have hwritten : (write steps p).Written := (written_of_create hcreate).write steps
  have hloose : (write steps p).Loose := hwritten.loose hunprepared hprepare
  have hproportioned : P₀.Proportioned :=
    proportioned_of_prepare hloose hwritten.charted.horizon hprepare
  have hcharted : P₀.Charted := hwritten.charted.of_draft (draft_of_prepare hprepare)
  have hP₀ : P₀.Fresh := ((settled_of_create hcreate).write steps).fresh hprepare
  have hP : P₀.Kept P := hP₀.kept_of_use huse
  have hn : P₀.horizon - 1 < P₀.horizon := Nat.sub_lt hproportioned.horizon Nat.one_pos
  refine ⟨fun states noises r P' h => ?_, fun states noises r P' h => ?_,
    fun t j ht hj hmoves hsamples => ?_⟩
  · rw [refine, Run.bind_ok _ (Run.get_on P), horizon_of_frame hP.frame] at h
    exact (pass_pools hP₀ rfl (fun _ => rfl) hproportioned hw hP hn h).2
  · exact (pass_pools hP₀ rfl (fun _ => rfl) hproportioned hw hP hn h).2
  · exact hcharted.distribution_places hw ht hj hmoves hsamples

end Multistage

/-- The optima of the programs that come up at the crossroads. A program is known by the right-hand
sides of its rows. -/
def Problems.crossroadsOptimum : Solver ℚ := fun P =>
  let bounds : List ℚ := P.rows.map fun r => r.rhs
  if bounds = [5, 1] then .optimal { point := [0, 1, 4], value := 4, duals := [1, -1] }
  else if bounds = [10, 1] then .optimal { point := [0, 1, 9], value := 9, duals := [1, -1] }
  else if bounds = [3, 1] then .optimal { point := [0, 1, 1], value := 1, duals := [1, -2] }
  else if bounds = [1, 10] then .optimal { point := [0, 1, 10], value := 10, duals := [0, 1] }
  else if bounds = [1, 3] then .optimal
    { point := [3 / 2, 1, 0], value := 3 / 2, duals := [0, 1 / 2] }
  else .gaveUp

open Multistage in
theorem Multistage.refine_tight_crossroads :
    ∃ p P₀ P' : Multistage ℚ, create (Problems.outline (.int 3) (.int 0)) = .ok p ∧
    (write Problems.crossroadsSteps p).prepared = false ∧
    prepare.on (write Problems.crossroadsSteps p) = (.ok (), P₀) ∧
    P₀.Weighted ∧ (refine Problems.crossroadsOptimum.verified [[1], [1]] [some [], some []]).on P₀ =
    (.ok (), P') ∧
    P₀.Refined Problems.crossroadsOptimum.verified (entryAt [[1], [1]])
      (entryAt [some [], some []]) 2 P₀ (.ok ()) P' ∧
    ([0, 1].map fun k => (P'.cutsAt 1 k).map fun c => (c.intercept, c.slopes)) =
    [[(10, [-1])], [(3, [-2])]] := by
  obtain ⟨p, P₀, hcreate, hunprepared, hprepare, hw, hhorizon, -⟩ := Problems.crossroads_prepared
  obtain ⟨p', hp', hok, hcuts⟩ : ∃ p : Multistage ℚ,
    p ∈ (create (Problems.outline (.int 3) (.int 0))).toOption ∧
      ((refine Problems.crossroadsOptimum.verified [[1], [1]] [some [], some []]).on
        (prepare.on (write Problems.crossroadsSteps p)).2).1.isOk = true ∧
      ([0, 1].map
      fun k => (((refine Problems.crossroadsOptimum.verified [[1], [1]] [some [], some []]).on
        (prepare.on (write Problems.crossroadsSteps p)).2).2.cutsAt 1 k).map
        fun c => (c.intercept, c.slopes)) =
        [[(10, [-1])], [(3, [-2])]] := by decide +kernel
  obtain rfl : p' = p := Except.ok.inj ((ok_of_toOption hp').symm.trans hcreate)
  rw [hprepare] at hok hcuts
  have hrun := Run.on_of_isOk hok
  have hrefined := (refine_tight hcreate hunprepared hprepare hw .refl
    Problems.crossroadsOptimum.verified).1 _ _ _ _ hrun
  rw [hhorizon] at hrefined
  exact ⟨p', P₀, _, hcreate, hunprepared, hprepare, hw, hrun, hrefined, hcuts⟩

open Multistage in
/-- Where probabilities are fewer than samples, the second branch gets a cut that is nine at the
trial point, but what is found on that branch is one, and it never moves to the first branch. -/
theorem Multistage.loose_hurried : ∃ (p P₀ : Multistage ℚ) (found found' : Outcomes ℚ) (c : Cut ℚ),
    create (Problems.outline (.int 3) (.int 0)) = .ok p ∧
    prepare.on (write Problems.hurriedSteps p) = (.ok (), P₀) ∧
    P₀.transitionAt 2 1 0 = 0 ∧
    ((outcomes Problems.crossroadsOptimum.verified 2 0 [1] (some [])).on P₀).1 = .ok found ∧
    ((outcomes Problems.crossroadsOptimum.verified 2 1 [1] (some [])).on P₀).1 = .ok found' ∧
    found'.values = [1] ∧
    P₀.cutFor 2 1 (gather [found, found']) [1] (some []) = .ok c ∧
    c.value? [1] (some []) = .ok 9 := by
  obtain ⟨p, P₀, hcreate, hprepare, -, hmove, hcuts⟩ := Problems.hurried_prepared
  obtain ⟨p', hp', ⟨found, hfound, hvalues, hgradients⟩, found', hfound', hvalues', hgradients'⟩ :
      ∃ p ∈ (create (Problems.outline (.int 3) (.int 0)) : Except (Fault ℚ) _).toOption,
      (∃ found ∈ ((outcomes Problems.crossroadsOptimum.verified 2 0 [1] (some [])).on
        (prepare.on (write Problems.hurriedSteps p)).2).1.toOption, found.values = [4, 9] ∧
        found.gradients = [[-1], [-1]]) ∧
      ∃ found ∈ ((outcomes Problems.crossroadsOptimum.verified 2 1 [1] (some [])).on
        (prepare.on (write Problems.hurriedSteps p)).2).1.toOption, found.values = [1] ∧
        found.gradients = [[-2]] := by
    decide +kernel
  obtain rfl : p' = p := Except.ok.inj ((ok_of_toOption hp').symm.trans hcreate)
  rw [hprepare] at hfound hfound'
  have hgather : gather [found, found'] =
      { values := [4, 9, 1], gradients := [[-1], [-1], [-2]] } := by
    simp [gather, hvalues, hvalues', hgradients, hgradients']
  obtain ⟨c, hc, hintercept, hslopes, hnoiseSlopes⟩ := hcuts 9 (by simp)
  refine ⟨p', P₀, found, found', c, hcreate, hprepare, hmove, ok_of_toOption hfound,
    ok_of_toOption hfound', hvalues',
    hgather ▸ hc, ?_⟩
  rw [Cut.value?_some (by rw [hslopes]; rfl) (.inl hnoiseSlopes), Cut.value, hintercept, hslopes,
    hnoiseSlopes]
  exact ok_of_toOption (by decide +kernel)

end Recourse
