import Recourse.Proofs.Cut.Ledger
import Recourse.Proofs.Exits
import Recourse.Proofs.Multistage.Pools
import Recourse.Proofs.Multistage.Writing

/-! How many cuts have arrived. Solving leaves the pools alone, and refining at a place adds one cut
there and none elsewhere; where it fails, no model is to blame that could not be solved. -/

namespace Recourse

open Run (Coupled Keeps)

variable {γ α β : Type}

/-! ### Pools -/

namespace Pool

/-- A pool at which a number of cuts have arrived; if it does not prune, it stores all of them. -/
structure Counts (n : ℕ) (p : Pool α) : Prop where
  issued : p.issued = n
  stored : p.pruning = false → p.cuts.length = n

variable [Scalar α] {n : ℕ} {p : Pool α}

theorem Unused.counts (h : p.Unused) : p.Counts 0 := by
  obtain ⟨sense, box, pruning, rfl⟩ := h
  exact ⟨rfl, fun _ => rfl⟩

/-- A cut is counted as it arrives, whatever becomes of it. -/
theorem Counts.add (h : p.Counts n) (c : Cut α) : Counts (n + 1) ((add c).on p).2 where
  issued := by
    rcases add_cases c p with ⟨e, hrun⟩ | hrun | ⟨kept, -, hrun⟩ <;> rw [hrun, ← h.issued]
  stored := by
    intro hpruning
    have hsame : ((Pool.add c).on p).2.pruning = p.pruning :=
      (congrArg pruning (grows_add c p).bare :)
    have hcuts : ((Pool.add c).on p).2.cuts = p.cuts ++ [{ c with index := some p.issued }] := by
      simp [Run.on, Pool.add, hsame ▸ hpruning]
    rw [hcuts, List.length_append, List.length_singleton, h.stored (hsame ▸ hpruning)]

end Pool

/-! ### Solving -/

theorem Stage.pool?_of_steady [Scalar α] [Numeral α] {act : Stage.Edit α β}
    (hact : ∀ J : Stage α → Prop, Stage.Steady J → Keeps J act) (m : Stage α) :
    (act.on m).2.pool? = m.pool? := by
  have hbare : (act.on m).2.bare = m.bare :=
    Keeps.iff_on.mp (hact _ (Stage.bare_steady m.bare)) m rfl
  have hpool : (act.on m).2.pool?.map Pool.bare = m.pool?.map Pool.bare := by
    rw [← Stage.pool?_bare, hbare, Stage.pool?_bare]
  rcases hm : m.pool? with _ | pool
  · rw [hm] at hpool
    exact Option.map_eq_none_iff.mp hpool
  · rw [hm] at hpool
    obtain ⟨found, hfound, -⟩ := Option.map_eq_some_iff.mp hpool
    have hsame : (act.on m).2.PoolHas (· = pool) :=
      Keeps.iff_on.mp (hact _ Stage.poolHas_steady) m fun _ h => Option.some.inj (h.symm.trans hm)
    rw [hfound, hsame found hfound]

namespace Multistage

variable {P₀ P P' : Multistage α} {t j k : ℕ}

/-- A problem that differs from another one at most in what solving overwrites. -/
structure SamePools (P₀ P : Multistage α) : Prop where
  frame : P.frame = P₀.frame
  pools : ∀ t k, P.poolAt t k = P₀.poolAt t k

theorem SamePools.refl (P : Multistage α) : P.SamePools P := ⟨rfl, fun _ _ => rfl⟩

theorem SamePools.withBound (h : P₀.SamePools P) (b : Option α) :
    P₀.SamePools { P with lastBound := b } :=
  ⟨h.frame, h.pools⟩

theorem prepared_of_frame (h : P.frame = P₀.frame) : P.prepared = P₀.prepared :=
  (congrArg prepared h :)

theorem horizon_of_frame (h : P.frame = P₀.frame) : P.horizon = P₀.horizon := (congrArg horizon h :)

theorem reachableStates_of_frame (h : P.frame = P₀.frame) (t : ℕ) :
    P.reachableStates t = P₀.reachableStates t :=
  (congrArg (fun P : Multistage α => P.reachableStates t) h :)

variable [Scalar α] [Numeral α]

theorem onModel_samePools {act : Stage.Edit α β}
    (hact : ∀ J : Stage α → Prop, Stage.Steady J → Keeps J act) :
    Keeps P₀.SamePools (onModel t k act) := by
  refine Keeps.iff_on.mpr fun P hP => ?_
  rcases hm : P.stageAt t k with _ | m
  · rwa [onModel_on_none hm]
  · rw [onModel_on_some hm]
    refine ⟨?_, fun t' k' => ?_⟩
    · rw [frame, skeleton_put hm (Keeps.iff_on.mp (hact _ (Stage.bare_steady m.bare)) m rfl)]
      exact hP.frame
    · rw [poolAt_put hm, Stage.pool?_of_steady hact, ← hP.pools]
      split_ifs with hsame
      · obtain ⟨rfl, rfl⟩ := hsame
        rw [poolAt, hm]
        rfl
      · rfl

theorem visit_samePools (lp : Solver α) (t : ℕ) (k s : Datum α) (previous : Option (Visit α)) :
    Keeps P₀.SamePools (visit lp t k s previous) :=
  visit_keeps_of fun _ _ _ => onModel_samePools fun _ hJ => hJ.follow lp _ t k s _

theorem outcomes_samePools (lp : Solver α) (t k : ℕ) (state : List α) (noise : Option (List α)) :
    Keeps P₀.SamePools (outcomes lp t k state noise) :=
  onModel_samePools fun _ hJ => (hJ.enterIncoming state noise).bind fun _ => hJ.solveScenarios lp

theorem computeBound_samePools (lp : Solver α) : Keeps P₀.SamePools (computeBound lp) :=
  onModel_samePools fun _ hJ => hJ.estimate lp

theorem prepare_samePools (hP₀ : P₀.prepared = true) : Keeps P₀.SamePools prepare :=
  Keeps.iff_on.mpr fun P hP => by
  rwa [prepare_on_prepared (prepared_of_frame hP.frame ▸ hP₀)]

theorem walkTwins_samePools (hP₀ : P₀.prepared = true) (lp : Solver α) :
    WalkTwins lp lp fun P P' => P = P' ∧ P₀.SamePools P :=
  walkTwins_self (prepare_samePools hP₀) fun t k s previous _ => visit_samePools lp t k s previous

theorem walkJobs_samePools [Source γ α] (hP₀ : P₀.prepared = true) (lp : Solver α) (seed : ℕ)
    (jobs workers : Datum α) (limit : Option ℕ) :
    Keeps P₀.SamePools (walkJobs lp (γ := γ) (fun _ => Guide.random) seed jobs workers limit) :=
  Coupled.self_iff.mp
    ((walkTwins_samePools hP₀ lp).walkJobs (fun _ => Guide.random_plain) seed jobs workers limit)

/-! ### Refining -/

structure Arrived (P : Multistage α) (t k : ℕ) (P' : Multistage α) : Prop where
  frame : P'.frame = P.frame
  here : ∃ (c : Cut α) (pool : Pool α),
    P.poolAt t k = some pool ∧ P'.poolAt t k = some ((Pool.add c).on pool).2
  elsewhere : ∀ t' k', ¬ (t' = t ∧ k' = k) → P'.poolAt t' k' = P.poolAt t' k'

variable {found : Outcomes α} {state : List α} {noise : Option (List α)}

omit [Numeral α] in
/-- Refining at a place, however it ends, concerns the pool there: it is left alone, or a cut is
handed to it. -/
theorem refineAt_pools {r : Except (Fault α) Unit}
    (h : (refineAt (t + 1) j found state noise).on P = (r, P')) :
    P'.frame = P.frame ∧ (∀ t' k', ¬ (t' = t ∧ k' = j) → P'.poolAt t' k' = P.poolAt t' k') ∧
      (r ≠ .ok () ∧ P'.poolAt t j = P.poolAt t j ∨ ∃ (c : Cut α) (pool : Pool α),
        P.cutFor (t + 1) j found state noise = .ok c ∧ P.poolAt t j = some pool ∧
          P'.poolAt t j = some ((Pool.add c).on pool).2) := by
  rw [refineAt_eq, Run.bind_ok _ (Run.get_on P), Nat.add_sub_cancel] at h
  rcases hcut : P.cutFor (t + 1) j found state noise with e | c
  · rw [hcut, Run.bind_error _ (Run.ofExcept_on _ P)] at h
    obtain ⟨rfl, rfl⟩ := Prod.mk.inj h
    exact ⟨rfl, fun _ _ _ => rfl, .inl ⟨nofun, rfl⟩⟩
  rw [hcut, Run.bind_ok _ (Run.ofExcept_on _ P)] at h
  have hadded : P' = ((onModel t j (Stage.onPool (Pool.add c))).on P).2 ∧
      (r = .ok () → ((onModel t j (Stage.onPool (Pool.add c))).on P).1.isOk = true) := by
    rcases hadd : (onModel t j (Stage.onPool (Pool.add c))).on P with ⟨e | _, Q⟩
    · rw [Run.bind_error _ hadd] at h
      obtain ⟨rfl, rfl⟩ := Prod.mk.inj h
      exact ⟨rfl, nofun⟩
    · rw [Run.bind_ok _ hadd] at h
      obtain ⟨rfl, rfl⟩ := Prod.mk.inj h
      exact ⟨rfl, fun _ => rfl⟩
  obtain ⟨rfl, hok⟩ := hadded
  rcases hm : P.stageAt t j with _ | m
  · rw [onModel_on_none hm] at hok ⊢
    exact ⟨rfl, fun _ _ _ => rfl, .inl ⟨fun hr => Bool.false_ne_true (hok hr), rfl⟩⟩
  rw [onModel_on_some hm] at hok ⊢
  have hbare : ((Stage.onPool (Pool.add c)).on m).2.bare = m.bare :=
    Keeps.iff_on.mp (Stage.onPool_bare (fun pool => (Pool.grows_add c pool).bare) m.bare) m rfl
  refine ⟨by rw [Multistage.frame, skeleton_put hm hbare]; rfl,
    fun t' k' hne => by rw [poolAt_put hm, if_neg hne], ?_⟩
  have hhere (M : Stage α) : (P.put t j M).poolAt t j = M.pool? := by
    rw [poolAt_put hm, if_pos ⟨rfl, rfl⟩]
  rw [hhere]
  rcases hctg : m.costToGo with _ | ctg
  · rw [Stage.onPool_on_none hctg] at hok ⊢
    exact .inl ⟨fun hr => Bool.false_ne_true (hok hr), by rw [poolAt, hm]; rfl⟩
  · refine .inr ⟨c, ctg.pool, rfl, ?_, ?_⟩
    · rw [poolAt, hm, Option.bind_some, Stage.pool?, hctg, Option.map_some]
    · rw [Stage.onPool_on_some hctg]
      rfl

omit [Numeral α] in
/-- Refining at a place adds one cut there. -/
theorem arrived_of_refineAt (h : (refineAt (t + 1) j found state noise).on P = (.ok (), P')) :
    P.Arrived t j P' := by
  obtain ⟨hframe, helsewhere, ⟨hr, -⟩ | ⟨c, pool, -, hpool, hadded⟩⟩ := refineAt_pools h
  · exact absurd rfl hr
  · exact ⟨hframe, ⟨c, pool, hpool, hadded⟩, helsewhere⟩

end Multistage

/-! ### Faults of refining

What refining fails with tells of lengths, positions, parameters and missing parts. -/

section

variable [Scalar α]

namespace RiskMeasure

variable {sense : Sense} {values weights p : List α} {rows : List (List α)}

theorem checkLevel_avoids (a : α) : Avoids Fault.OfWork (checkLevel a) :=
  .ite (.ok _) (.error nofun)

theorem checkWeight_avoids (l : α) : Avoids Fault.OfWork (checkWeight l) :=
  .ite (.ok _) (.error nofun)

theorem spend_avoids (p : List α) (a : α) (order : List ℕ) (remaining : α) :
    Avoids Fault.OfWork (spend p a order remaining) := by
  induction order generalizing remaining with
  | nil => exact .ok _
  | cons i order ih =>
    exact .ite (.ok _) (.bind (.entryAt nofun) fun pi => .bind (ih _) fun _ => .ok _)

theorem tailWeights_avoids (a : α) : Avoids Fault.OfWork (tailWeights sense values p a) :=
  .bind (spend_avoids p a _ 1) fun _ => .ok _

theorem weigh_avoids : Avoids Fault.OfWork (weigh weights values rows) := by
  refine .ite (.error nofun) (.ite (.error nofun) ?_)
  cases rows with
  | nil => exact .ok _
  | cons row rows => exact .ite (.ok _) (.error nofun)

theorem mix_avoids (l : α) (p q : List α) : Avoids Fault.OfWork (mix l p q) := by
  unfold mix
  dsimp only
  split
  · exact .ok _
  · exact .error nofun

theorem worstOutcome_avoids : Avoids Fault.OfWork (worstOutcome sense values p rows) := by
  unfold worstOutcome
  dsimp only
  split
  · refine .ite (.bind (.error nofun) fun _ => ?_) ?_
    all_goals
      refine .bind (.entryAt nofun) fun value => ?_
      cases rows with
      | nil => exact .error nofun
      | cons row rows => exact .ite (.bind (.entryAt nofun) fun _ => .ok _) (.error nofun)
  · exact .error nofun

theorem apply_avoids (measure : RiskMeasure α) (p : Option (List α)) :
    Avoids Fault.OfWork (measure.apply sense values rows p) := by
  cases measure with
  | expectation => exact weigh_avoids
  | worstCase => exact worstOutcome_avoids
  | tail a =>
    exact .bind (checkLevel_avoids a) fun _ => .bind (tailWeights_avoids a) fun _ => weigh_avoids
  | mixed a l =>
    refine .bind (checkWeight_avoids l) fun _ => .bind (checkLevel_avoids a) fun _ => ?_
    exact .bind (tailWeights_avoids a) fun q => .bind (mix_avoids l _ q) fun _ => weigh_avoids

theorem describe?_avoids (name : String) (a l : Option (Datum α)) :
    Avoids Fault.OfWork (describe? name a l) := by
  unfold describe?
  dsimp only
  split
  · exact .ok _
  · exact .ok _
  · refine .bind ?_ fun _ => .ok _
    split
    · exact .ok _
    · exact .error nofun
  · refine .bind ?_ fun l => .bind (checkWeight_avoids l) fun _ => .bind ?_ fun _ => .ok _
    all_goals
      split
      · exact .ok _
      · exact .error nofun
  · exact .error nofun

end RiskMeasure

namespace Multistage

theorem outcomeProbabilities_avoids (P : Multistage α) (t j : ℕ) :
    Avoids Fault.OfWork (P.outcomeProbabilities t j) := by
  refine .bind (.bind (.entryFrom nofun) fun _ => .entryFrom nofun) fun row =>
    .bind (.mapM fun k _ => ?_) fun _ => .ok _
  exact .bind (.entryAt nofun) fun x =>
    .bind (.bind (.entryFrom nofun) fun _ => .entryFrom nofun) fun m => .ok _

theorem judge_avoids (P : Multistage α) (t j : ℕ) (found : Outcomes α) :
    Avoids Fault.OfWork (P.judge t j found) := by
  refine .bind (P.outcomeProbabilities_avoids t j) fun probabilities =>
    .bind (.entryAt nofun) fun choice => ?_
  exact .bind (RiskMeasure.describe?_avoids _ _ _) fun measure => measure.apply_avoids _

theorem cutFor_avoids (P : Multistage α) (t j : ℕ) (found : Outcomes α) (state : List α)
    (noise : Option (List α)) :
    Avoids Fault.OfWork (P.cutFor t j found state noise) := by
  refine .bind (P.judge_avoids t j found) fun total => ?_
  refine .bind (.bind (.entryFrom nofun) fun _ => .entryFrom nofun) fun m => ?_
  unfold Stage.newCut
  split
  · exact .error nofun
  · refine .ite (.ite (.error nofun) ?_) (.ite (.error nofun) (.ok _))
    cases noise with
    | none => exact .error nofun
    | some noise => exact .ite (.error nofun) (.ok _)

end Multistage

theorem Pool.add_avoids (c : Cut α) (p : Pool α) : Avoids Fault.OfWork ((add c).on p).1 := by
  have hdominates (c other : Cut α) : Avoids Fault.OfWork (p.dominates? c other) := by
    refine .ite (.error nofun) ?_
    split
    · exact .ok _
    · exact .error nofun
  have hscreen (c : Cut α) : Avoids Fault.OfWork ({ p with issued := p.issued + 1 }.screen c) := by
    refine .bind (.anyM fun other _ => hdominates c other) fun dominated => .ite (.ok _) ?_
    exact .bind (.filterM fun other _ => .bind (hdominates other c) fun _ => .ok _) fun _ => .ok _
  simp only [Run.on, add]
  split_ifs
  · split
    · next e h => exact .error (hscreen _ e h)
    · exact .ok _
    · exact .ok _
  · exact .ok _

/-- Refining does not fail for want of a solution. -/
theorem Multistage.refineAt_avoids {P P' : Multistage α} {t j : ℕ} {found : Outcomes α}
    {state : List α}
    {noise : Option (List α)} {e : Fault α}
    (h : (refineAt t j found state noise).on P = (.error e, P')) : ¬ e.OfWork := by
  rw [refineAt_eq, Run.bind_ok _ (Run.get_on P)] at h
  rcases Run.error_of_bind h with h | ⟨c, Q, -, h⟩
  · exact P.cutFor_avoids t j found state noise e (congrArg Prod.fst h)
  rcases Run.error_of_bind h with h | ⟨stored, Q', -, h⟩
  · rcases hm : Q.stageAt (t - 1) j with _ | m
    · rw [onModel_on_none hm] at h
      cases h
      exact nofun
    · rw [onModel_on_some hm] at h
      have hpool : ((Stage.onPool (Pool.add c)).on m).1 = .error e := congrArg Prod.fst h
      rcases hctg : m.costToGo with _ | ctg
      · rw [Stage.onPool_on_none hctg] at hpool
        cases hpool
        exact nofun
      · rw [Stage.onPool_on_some hctg] at hpool
        exact Pool.add_avoids c ctg.pool e hpool
  · cases h

end

/-! ### The count -/

namespace Multistage

/-- How many cuts have arrived at each reachable Markov state before the last stage. -/
def Tally (P : Multistage α) (count : ℕ → ℕ → ℕ) : Prop :=
  ∀ t k, t + 1 < P.horizon → k ∈ P.reachableStates t →
    ∃ pool, P.poolAt t k = some pool ∧ pool.Counts (count t k)

variable {P P' : Multistage α} {count : ℕ → ℕ → ℕ}

theorem Tally.congr {count' : ℕ → ℕ → ℕ} (h : P.Tally count)
    (hcount : ∀ t k, t + 1 < P.horizon → k ∈ P.reachableStates t → count' t k = count t k) :
    P.Tally count' := by
  intro t k ht hk
  rw [hcount t k ht hk]
  exact h t k ht hk

theorem Tally.of_samePools (h : P.Tally count) (hP : P.SamePools P') : P'.Tally count := by
  intro t k ht hk
  rw [horizon_of_frame hP.frame] at ht
  rw [reachableStates_of_frame hP.frame] at hk
  rw [hP.pools]
  exact h t k ht hk

theorem Tally.arrived [Scalar α] {s j : ℕ} {count' : ℕ → ℕ → ℕ} (h : P.Tally count)
    (hP : P.Arrived s j P') (hhere : count' s j = count s j + 1)
    (helsewhere : ∀ t k, k ∈ P.reachableStates t → ¬ (t = s ∧ k = j) → count' t k = count t k) :
    P'.Tally count' := by
  intro t k ht hk
  rw [horizon_of_frame hP.frame] at ht
  rw [reachableStates_of_frame hP.frame] at hk
  obtain ⟨pool, hpool, hcounts⟩ := h t k ht hk
  by_cases hplace : t = s ∧ k = j
  · obtain ⟨rfl, rfl⟩ := hplace
    obtain ⟨c, found, hfound, hafter⟩ := hP.here
    obtain rfl := Option.some.inj (hfound.symm.trans hpool)
    rw [hhere]
    exact ⟨_, hafter, hcounts.add c⟩
  · rw [hP.elsewhere t k hplace, helsewhere t k hk hplace]
    exact ⟨pool, hpool, hcounts⟩

/-- Preparation sets up a pool for each reachable Markov state before the last stage, and no cut has
arrived there. -/
theorem tally_of_prepare [Field α] [LinearOrder α] [IsStrictOrderedRing α] [Numeral α]
    {p P₀ : Multistage α} (hp : p.Charted)
    (hloose : p.Loose) (h : prepare.on p = (.ok (), P₀)) :
    P₀.prepared = true ∧ P₀.Tally fun _ _ => 0 := by
  have hdraft := draft_of_prepare h
  have hunused : P₀.PoolsHave Pool.Unused := unused_of_prepare (fun t k m hm pool hpool => by
    rw [Stage.pool?, (hloose.models t k m hm).costToGo.2] at hpool
    cases hpool) h
  refine ⟨(prepare_prepared p trivial).1 () P₀ h, fun t k ht hk => ?_⟩
  rw [horizon_of_draft hdraft] at ht
  rw [reachableStates_of_draft hdraft] at hk
  obtain ⟨m, hm⟩ := hp.exists_stageAt.mpr (hp.lt_counts hk).2
  obtain ⟨M, hM, hfitted⟩ := fitted_of_prepare hloose.unprepared h hk (by omega) hm
    (hloose.models t k m hm).toAlone
  obtain ⟨ctg, hctg⟩ := Option.isSome_iff_exists.mp (hfitted.equipped (by simpa using ht))
  have hpool : M.pool? = some ctg.pool := by rw [Stage.pool?, hctg, Option.map_some]
  exact ⟨ctg.pool, by rw [poolAt, hM, Option.bind_some, hpool],
    (hunused t k M hM ctg.pool hpool).counts⟩

end Multistage

end Recourse
