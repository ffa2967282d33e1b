import Recourse.Proofs.Comparison.Training
import Recourse.Proofs.Multistage.History
import Recourse.Proofs.Multistage.Paths

/-! Markov states that cannot be reached. Two problems whose models differ there and nowhere else
are held against each other: no draw and no path leads to such a state, no pass solves its model,
and none puts a cut there. So the two run alike, and each of them keeps those models as they are. -/

namespace Recourse

open Run (Alike Coupled Keeps Triple)
open Source (Lawful)

variable {α β γ : Type}

namespace Multistage

variable {p p' P P' : Multistage α} {t j k : ℕ} {m : Stage α}

/-- Two problems that differ in the models of states that cannot be reached, if at all. -/
structure Beside (P P' : Multistage α) : Prop where
  frame : P' = { P with models := P'.models }
  lengths : P'.models.map List.length = P.models.map List.length
  reached : ∀ t k, k ∈ P.reachableStates t → P'.stageAt t k = P.stageAt t k

/-- A problem that has become of `p`, with the same models for the states that cannot be reached. -/
structure Idle (p P : Multistage α) : Prop where
  chain : P.chain = p.chain
  horizon : P.horizon = p.horizon
  lengths : P.models.map List.length = p.models.map List.length
  models : ∀ t k, k ∉ p.reachableStates t → P.stageAt t k = p.stageAt t k

structure Parallel (p p' P P' : Multistage α) : Prop where
  beside : P.Beside P'
  left : p.Idle P
  right : p'.Idle P'

/-! ### What the models do not tell -/

theorem Beside.same (h : P.Beside P') (f : Multistage α → β)
    (hf : ∀ (Q : Multistage α) models, f { Q with models } = f Q) :
    f P' = f P := by
  rw [h.frame, hf]

theorem Beside.reachableStates_eq (h : P.Beside P') (t : ℕ) :
    P'.reachableStates t = P.reachableStates t :=
  h.same (reachableStates · t) fun _ _ => rfl

theorem Idle.reachableStates_eq (h : p.Idle P) (t : ℕ) :
    P.reachableStates t = p.reachableStates t := by
  rw [reachableStates, reachableStates, h.chain]

theorem Idle.refl (p : Multistage α) : p.Idle p := ⟨rfl, rfl, rfl, fun _ _ _ => rfl⟩

theorem Beside.refl (P : Multistage α) : P.Beside P := ⟨rfl, rfl, fun _ _ _ => rfl⟩

theorem Parallel.refl (P : Multistage α) : Parallel P P P P := ⟨.refl P, .refl P, .refl P⟩

theorem Parallel.reachable_iff (h : Parallel p p' P P') : k ∈ p.reachableStates t ↔
    k ∈ P.reachableStates t := by
  rw [h.left.reachableStates_eq]

theorem Beside.model_eq (h : P.Beside P') (hk : k ∈ P.reachableStates t) :
    P'.model t k = P.model t k := by
  rw [Multistage.model_eq, Multistage.model_eq, h.reached t k hk]

theorem Beside.length_eq (h : P.Beside P') (t : ℕ) :
    (P'.models.getD t []).length = (P.models.getD t []).length := by
  have hlength (ms : List (List (Stage α))) :
      (ms.getD t []).length = (ms.map List.length).getD t 0 := by
    simp only [List.getD_eq_getElem?_getD, List.getElem?_map]
    cases ms[t]? <;> rfl
  rw [hlength, hlength, h.lengths]

theorem Beside.locate_eq (h : P.Beside P') (t k : ℤ) : P'.locate t k = P.locate t k := by
  have hlength : P'.models.length = P.models.length := by
    rw [← List.length_map (f := List.length), h.lengths, List.length_map]
  unfold locate
  simp only [hlength, h.length_eq]

theorem eq_of_locate {place : ℕ × ℕ} (h : P.locate t k = .ok place) : place = (t, k) := by
  unfold locate at h
  rw [resolve_natCast] at h
  split_ifs at h
  dsimp only at h
  rw [resolve_natCast] at h
  split_ifs at h
  exact (Except.ok.inj h).symm

theorem Beside.reachableModels_eq (h : P.Beside P') (t : ℕ) :
    P'.reachableModels t = P.reachableModels t := by
  have hchain : P'.chain = P.chain := h.same chain fun _ _ => rfl
  have hfilter (f : Stage α × Bool → Option (Stage α)) (xs : List (Stage α × Bool)) :
      xs.filterMap f = (xs.map f).filterMap id := by
    rw [List.filterMap_map]
    rfl
  rw [reachableModels, reachableModels, hchain, hfilter, hfilter]
  congr 1
  refine List.ext_getElem ?_ fun k hk hk' => ?_
  · rw [List.length_map, List.length_map, List.length_zip, List.length_zip, h.length_eq]
  rw [List.length_map, List.length_zip, lt_min_iff] at hk hk'
  simp only [List.getElem_map, List.getElem_zip]
  split_ifs with hr
  · have hmem : k ∈ P.reachableStates t := by
      rw [mem_reachableStates, List.getElem?_eq_getElem hk.2, hr]
    have hsame := h.reached t k hmem
    rwa [stageAt_eq_getElem?, stageAt_eq_getElem?, List.getElem?_eq_getElem hk.1,
      List.getElem?_eq_getElem hk'.1] at hsame
  · rfl

/-! ### Operations on the models that can be reached -/

theorem Parallel.put (h : Parallel p p' P P') (hk : k ∈ p.reachableStates t)
    (hm : P.stageAt t k = some m) (m' : Stage α) :
    Parallel p p' (P.put t k m') (P'.put t k m') := by
  have hm' : P'.stageAt t k = some m := (h.beside.reached t k (h.reachable_iff.mp hk)).trans hm
  have hchain : p'.chain = p.chain := by
    rw [← h.right.chain, h.beside.same chain fun _ _ => rfl, h.left.chain]
  have hother {t' k' : ℕ} (hk' : k' ∉ p.reachableStates t') : t' = t → k' ≠ k := by
    rintro rfl rfl
    exact hk' hk
  refine ⟨⟨?_, ?_, fun t' k' hk' => ?_⟩, ⟨h.left.chain, h.left.horizon, ?_, fun t' k' hk' => ?_⟩,
    ⟨h.right.chain, h.right.horizon, ?_, fun t' k' hk' => ?_⟩⟩
  · exact congrArg (fun Q : Multistage α => { Q with models := (P'.put t k m').models })
      h.beside.frame
  · rw [lengths_put hm', lengths_put hm, h.beside.lengths]
  · by_cases hsame : t' = t ∧ k' = k
    · obtain ⟨rfl, rfl⟩ := hsame
      rw [stageAt_put_self hm, stageAt_put_self hm']
    · have hne : t' = t → k' ≠ k := fun ht hk => hsame ⟨ht, hk⟩
      rw [stageAt_put_of_ne hne, stageAt_put_of_ne hne]
      exact h.beside.reached t' k' hk'
  · rw [lengths_put hm, h.left.lengths]
  · rw [stageAt_put_of_ne (hother hk')]
    exact h.left.models t' k' hk'
  · rw [lengths_put hm', h.right.lengths]
  · have hk'' : k' ∉ p.reachableStates t' := by
      rwa [reachableStates, hchain] at hk'
    rw [stageAt_put_of_ne (hother hk'')]
    exact h.right.models t' k' hk'

theorem onModel_parallel (hk : k ∈ p.reachableStates t) (act : Stage.Edit α β) :
    Coupled (Parallel p p') (onModel t k act) (onModel t k act) Eq := by
  intro P P' h
  have hsame := h.beside.reached t k (h.reachable_iff.mp hk)
  rcases hm : P.stageAt t k with _ | m
  · rw [onModel_on_none hm, onModel_on_none (hsame.trans hm)]
    exact ⟨.error _, h⟩
  · rw [onModel_on_some hm, onModel_on_some (hsame.trans hm)]
    exact ⟨.refl (fun _ => rfl) _, h.put hk hm _⟩

theorem onReachable_parallel (t : ℕ) (act : Stage.Edit α Unit) :
    Coupled (Parallel p p') (onReachable t act) (onReachable t act) Eq := by
  refine Coupled.get_bind fun P P' h => ?_
  rw [h.beside.reachableStates_eq]
  exact Coupled.forM fun k hk => onModel_parallel (h.reachable_iff.mpr hk) act

theorem Parallel.change (h : Parallel p p' P P') (f : Multistage α → Multistage α)
    (hchain : ∀ Q, (f Q).chain = Q.chain) (hhorizon : ∀ Q, (f Q).horizon = Q.horizon)
    (hmodels : ∀ Q, (f Q).models = Q.models)
    (hframe : ∀ (Q : Multistage α) models, f { Q with models } = { f Q with models }) :
    Parallel p p' (f P) (f P') := by
  have hstage (Q : Multistage α) (t k : ℕ) : (f Q).stageAt t k = Q.stageAt t k := by
    rw [stageAt, stageAt, hmodels]
  have hidle {p P : Multistage α} (h : p.Idle P) : p.Idle (f P) :=
    ⟨(hchain P).trans h.chain,
      (hhorizon P).trans h.horizon, by rw [hmodels, h.lengths], fun t k hk => by
      rw [hstage, h.models t k hk]⟩
  refine ⟨⟨?_, by rw [hmodels, hmodels, h.beside.lengths], fun t k hk => ?_⟩, hidle h.left,
    hidle h.right⟩
  · rw [hmodels, ← hframe, ← h.beside.frame]
  · rw [hstage, hstage]
    exact h.beside.reached t k (by rwa [reachableStates, hchain] at hk)

section

variable [Scalar α] [Numeral α]

/-! ### Preparation -/

omit [Scalar α] [Numeral α] in
theorem Beside.isLagged_eq (h : P.Beside P') (t : ℕ) : P'.isLagged t = P.isLagged t := by
  rw [isLagged, isLagged, h.reachableModels_eq]

omit [Scalar α] [Numeral α] in
/-- The checks look at models that can be reached. -/
theorem Beside.check_eq (h : P.Beside P') (hstart : 0 ∈ P.reachableStates 0) :
    P'.check = P.check := by
  have hhorizon : P'.horizon = P.horizon := h.same horizon fun _ _ => rfl
  have hfirst : P'.checkFirst = P.checkFirst := by
    have hmodel : P'.model 0 0 = P.model 0 0 := h.model_eq hstart
    rw [checkFirst, checkFirst, hmodel, hhorizon]
  have hstage : P'.checkStage = P.checkStage := by
    funext t
    unfold checkStage
    simp only [h.reachableModels_eq]
  rw [check, check, hfirst, hstage, hhorizon]

theorem prepare_parallel (hstart : 0 ∈ p.reachableStates 0) :
    Coupled (Parallel p p') (prepare : Run α (Multistage α) Unit) prepare Eq := by
  have hcost (t : ℕ) : Coupled (Parallel p p') (setUpCostToGo t : Run α (Multistage α) Unit)
      (setUpCostToGo t) Eq := by
    refine Coupled.get_bind fun P P' h => ?_
    have hbound : P'.bound = P.bound := h.beside.same bound fun _ _ => rfl
    have hdiscount : P'.discount = P.discount := h.beside.same discount fun _ _ => rfl
    have hsense : P'.sense = P.sense := h.beside.same sense fun _ _ => rfl
    have hpruning : P'.pruning = P.pruning := h.beside.same pruning fun _ _ => rfl
    rw [hbound, hdiscount, hsense, hpruning, h.beside.isLagged_eq]
    exact onReachable_parallel t _
  refine Coupled.get_bind fun P P' h => ?_
  have hprepared : P'.prepared = P.prepared := h.beside.same prepared fun _ _ => rfl
  have hhorizon : P'.horizon = P.horizon := h.beside.same horizon fun _ _ => rfl
  rw [hprepared, hhorizon, h.beside.check_eq (h.reachable_iff.mp hstart)]
  refine .ite (.pure rfl) ((Coupled.ofExcept_eq rfl).bind_same fun _ => ?_)
  refine (Coupled.forM fun t _ => hcost t).bind_same fun _ => ?_
  refine (Coupled.forM fun t _ => onReachable_parallel t _).bind_same fun _ =>
    Coupled.modify fun P P' h => ?_
  exact h.change (fun Q => { Q with prepared := true }) (fun _ => rfl) (fun _ => rfl) (fun _ => rfl)
    fun _ _ => rfl

/-! ### Passes -/

theorem visit_parallel (lp : Solver α) (s : Datum α) (previous : Option (Visit α))
    (hk : k ∈ p.reachableStates t) :
    Coupled (Parallel p p') (visit lp t (.int k) s previous)
      (visit lp t (.int k) s previous) Eq := by
  rw [visit_eq]
  refine Coupled.get_bind fun P P' h => ?_
  have hdiscount : P'.discount = P.discount := h.beside.same discount fun _ _ => rfl
  rw [hdiscount]
  refine Coupled.ofExcept_ok.bind ?_
  rintro i _ ⟨rfl, hi⟩
  obtain rfl := Except.ok.inj hi
  refine Coupled.get_bind fun Q Q' hQ => ?_
  rw [hQ.beside.locate_eq]
  refine Coupled.ofExcept_ok.bind ?_
  rintro place _ ⟨rfl, hplace⟩
  obtain rfl := eq_of_locate hplace
  exact onModel_parallel hk _

omit [Numeral α] in
/-- The outcomes are judged by the probabilities of states that can be reached. -/
theorem Beside.judge_eq (h : P.Beside P') (t j : ℕ) (found : Outcomes α) :
    P'.judge t j found = P.judge t j found := by
  have hprobabilities : P'.outcomeProbabilities t j = P.outcomeProbabilities t j := by
    have htransition : P'.transition t j = P.transition t j :=
      h.same (transition · t j) fun _ _ => rfl
    unfold outcomeProbabilities
    rw [htransition, h.reachableStates_eq]
    refine bind_congr fun row => ?_
    rw [mapM_congr fun k hk => by rw [h.model_eq hk]]
  have hmeasures : P'.measures = P.measures := h.same measures fun _ _ => rfl
  have hsense : P'.sense = P.sense := h.same sense fun _ _ => rfl
  rw [judge, judge, hprobabilities, hmeasures, hsense]

omit [Numeral α] in
theorem refineAt_parallel (found : Outcomes α) (state : List α) (noise : Option (List α))
    (hj : j ∈ p.reachableStates (t - 1)) :
    Coupled (Parallel p p') (refineAt t j found state noise)
      (refineAt t j found state noise) Eq := by
  refine Coupled.get_bind fun P P' h => ?_
  rw [h.beside.judge_eq, h.beside.model_eq (h.reachable_iff.mp hj)]
  refine (Coupled.ofExcept_eq rfl).bind_same fun total =>
    (Coupled.ofExcept_eq rfl).bind_same fun m => ?_
  cases m.costToGo with
  | none => exact .throw
  | some ctg => exact (Coupled.ofExcept_eq rfl).bind_same fun cut =>
    (onModel_parallel hj _).bind_same fun _ => .pure rfl

end

end Multistage

/-- The comparison of problems beside each other: both keep to the states that can be reached. -/
def Comparison.idle (p p' : Multistage α) : Comparison α where
  related := Multistage.Parallel p p'
  side := .minimize
  step := fun t step => ∃ k : ℕ, k ∈ p.reachableStates t ∧ step.1 = .int k
  state := fun t k => k ∈ p.reachableStates t

namespace Multistage

variable {p p' P P' : Multistage α} {t j k : ℕ} {m : Stage α}

section

variable [Field α] [LinearOrder α] [Numeral α]

/-! ### The scenario tree -/

theorem Idle.charted (h : p.Idle P) (hp : p.Charted) : P.Charted where
  chain := h.chain ▸ hp.chain
  horizon := h.horizon ▸ hp.horizon
  stages := by rw [h.chain, h.horizon, hp.stages]
  models := by rw [h.lengths, h.chain, hp.models]

theorem Beside.charted (h : P.Beside P') (hP : P.Charted) : P'.Charted where
  chain := h.same chain (fun _ _ => rfl) ▸ hP.chain
  horizon := h.same horizon (fun _ _ => rfl) ▸ hP.horizon
  stages := by rw [h.same chain fun _ _ => rfl, h.same horizon fun _ _ => rfl, hP.stages]
  models := by rw [h.lengths, h.same chain fun _ _ => rfl, hP.models]

variable [IsStrictOrderedRing α]

theorem Beside.successors_eq (h : P.Beside P') (hP : P.Charted) (ht : t + 1 < P.horizon)
    (hj : j ∈ P.reachableStates t) :
    P'.successors (t + 1 : ℕ) j = P.successors (t + 1 : ℕ) j := by
  have hhorizon : P'.horizon = P.horizon := h.same horizon fun _ _ => rfl
  have hmoves : P'.moves (t + 1) j = P.moves (t + 1) j := h.same (moves · (t + 1) j) fun _ _ => rfl
  have htransition (k : ℕ) : P'.transitionAt (t + 1) j k = P.transitionAt (t + 1) j k :=
    h.same (transitionAt · (t + 1) j k) fun _ _ => rfl
  rw [(h.charted hP).successors_eq (hhorizon ▸ ht) (h.reachableStates_eq t ▸ hj),
    hP.successors_eq ht hj, hmoves]
  refine List.flatMap_congr fun k _ => ?_
  rw [htransition]
  split_ifs with hzero
  · rfl
  · have hpos := (hP.transitionAt_nonneg ht hj k).lt_of_ne (Ne.symm hzero)
    have hk := (hP.mem_reachableStates_succ ht).mpr ⟨j, hj, hpos⟩
    rw [stepsTo, stepsTo, probabilitiesAt, probabilitiesAt, h.reached (t + 1) k hk]

theorem Beside.continuations_eq (h : P.Beside P') (hP : P.Charted) {n : ℕ} (hn : t + n < P.horizon)
    (hj : j ∈ P.reachableStates t) : P'.continuations n (t + 1) j = P.continuations n
    (t + 1) j := by
  induction n generalizing t j with
  | zero => rfl
  | succ n ih =>
    have ht : t + 1 < P.horizon := by omega
    rw [continuations, continuations, h.successors_eq hP ht hj]
    refine List.flatMap_congr fun step hstep => ?_
    obtain ⟨k, s, rfl, hk⟩ := hP.reachable_of_mem_successors ht hj hstep
    rw [ih (by omega) hk]

/-- No path leads to a state that cannot be reached. -/
theorem along_of_mem_continuations (hP : P.Charted)
    (hsame : ∀ t, P.reachableStates t = p.reachableStates t) {n : ℕ} (hn : t + n < P.horizon)
    (hj : j ∈ P.reachableStates t) {path : ScenarioPath}
    (hpath : path ∈ P.continuations n (t + 1) j) : (Comparison.idle p p').Along (t + 1) path := by
  induction n generalizing t j path with
  | zero =>
    obtain rfl := List.mem_singleton.mp hpath
    trivial
  | succ n ih =>
    obtain ⟨step, hstep, hpath⟩ := List.mem_flatMap.mp hpath
    obtain ⟨rest, hrest, rfl⟩ := List.mem_map.mp hpath
    obtain ⟨k, s, rfl, hk⟩ := hP.reachable_of_mem_successors (by omega) hj hstep
    exact ⟨⟨k, hsame (t + 1) ▸ hk, rfl⟩, ih (by omega) hk hrest⟩

theorem Parallel.paths (h : Parallel p p' P P') (hp : p.Charted) :
    P'.paths = P.paths ∧ ∀ path ∈ P.paths, (Comparison.idle p p').Along 0 path := by
  have hP := h.left.charted hp
  have hhorizon : P'.horizon = P.horizon := h.beside.same horizon fun _ _ => rfl
  obtain ⟨hstart, hn⟩ := hP.start_mem
  have hcontinuations := h.beside.continuations_eq hP hn hstart
  rw [paths_eq, paths_eq, hhorizon]
  refine ⟨congrArg _ hcontinuations, fun path hpath => ?_⟩
  obtain ⟨rest, hrest, rfl⟩ := List.mem_map.mp hpath
  exact ⟨⟨0, h.reachable_iff.mpr hstart, rfl⟩,
    along_of_mem_continuations hP h.left.reachableStates_eq hn hstart hrest⟩

omit [IsStrictOrderedRing α] [Numeral α] in
theorem Parallel.weight_eq (h : Parallel p p' P P') {path : ScenarioPath}
    (hpath : (Comparison.idle p p').Along 0 path) :
    P'.weight path = P.weight path := by
  have hfrom (path : ScenarioPath) (t : ℕ) (previous : Option ℤ) (w : α)
      (hpath : (Comparison.idle p p').Along t path) :
      P'.weightFrom t previous w path = P.weightFrom t previous w path := by
    induction path generalizing t previous w with
    | nil => rfl
    | cons step path ih =>
      obtain ⟨⟨k, hk, hstep⟩, hpath⟩ := hpath
      obtain ⟨i, s⟩ := step
      obtain rfl : i = k := Datum.int.inj hstep
      have hweight : P'.stepWeight t previous (↑k, s) = P.stepWeight t previous (↑k, s) := by
        have htransition (j : ℤ) : P'.transition t j = P.transition t j :=
          h.beside.same (transition · t j) fun _ _ => rfl
        unfold stepWeight
        simp only [htransition, h.beside.model_eq (h.reachable_iff.mp hk)]
      rw [weightFrom, weightFrom, hweight]
      exact bind_congr fun _ => ih _ _ _ hpath
  exact hfrom path 0 none 1 hpath

/-! ### Draws -/

variable [Source γ α]

/-- Whatever Markov state is drawn after one that can be reached can be reached. After the last
stage, none is drawn. -/
theorem Charted.reachable_of_drawState (hp : p.Charted) (hγ : Lawful γ)
    (hj : j ∈ p.reachableStates t) :
    Triple (fun _ : γ => True) (p.drawState (t + 1 : ℕ) j)
      (fun k _ => k ∈ p.reachableStates (t + 1)) fun _ => True := by
  refine fun g _ => ⟨fun k g' hrun => ?_, fun _ _ _ => trivial⟩
  by_cases ht : t + 1 < p.horizon
  · exact (hp.mem_reachableStates_succ ht).mpr ⟨j, hj, hp.pos_of_drawState hγ ht hj hrun⟩
  · have hne : ¬ ((t + 1 : ℕ) : ℤ) = 0 := by omega
    have hcount : (entryFrom p.chain.counts (t + 1 : ℕ) : Except (Fault α) ℕ) =
        .error .position := by
      rw [entryFrom_natCast, entryAt, List.getElem?_eq_none (by rw [hp.stages]; omega)]
    unfold drawState at hrun
    rw [if_neg hne, hcount] at hrun
    cases hrun

theorem random_idle (hp : p.Charted) (hγ : Lawful γ) :
    (Comparison.idle p p').Guided (Guide.random : Guide γ α) := by
  intro P P' h t j hcame
  have hP := h.left.charted hp
  have hstate (t : ℕ) (j : ℤ) : (P'.drawState t j : Run α γ ℕ) = P.drawState t j :=
    h.beside.same (fun P => (P.drawState t j : Run α γ ℕ)) fun _ _ => rfl
  have hstage : Coupled Eq (P.drawStage t j : Run α γ (ℤ × ℤ)) (P'.drawStage t j) fun step step' =>
      step' = step ∧ (Comparison.idle p p').step t (Guide.place step) := by
    cases t with
    | zero =>
      rintro g _ rfl
      exact ⟨.ok ⟨rfl, 0, h.reachable_iff.mpr hP.start_mem.1, rfl⟩, rfl⟩
    | succ t =>
      obtain ⟨⟨_, _⟩, ⟨i, hi, rfl⟩, rfl⟩ := hcame
      change Coupled Eq (P.drawStage (t + 1) (i : ℤ)) (P'.drawStage (t + 1) (i : ℤ)) _
      unfold drawStage
      rw [hstate]
      refine (Coupled.refl.and_left (hP.reachable_of_drawState hγ (h.reachable_iff.mp hi))).bind ?_
      rintro k _ ⟨rfl, hk⟩
      rw [if_neg (Nat.succ_ne_zero t), if_neg (Nat.succ_ne_zero t), h.beside.model_eq hk]
      refine (Coupled.ofExcept_eq rfl).bind_same fun m => Coupled.refl.bind_same fun s => ?_
      exact .pure ⟨rfl, k, h.reachable_iff.mpr hk, rfl⟩
  refine hstage.bind ?_
  rintro step _ ⟨rfl, hstep⟩
  exact .pure ⟨rfl, hstep⟩

/-! ### All work -/

omit [Source γ α] in
/-- Problems beside each other agree in all elementary operations. -/
theorem worksAlike_idle (hp : p.Charted) (lp : Solver α) :
    (Comparison.idle p p').WorksAlike lp lp where
  symmetry := Sense.isSymmetry_minimize
  prepare := prepare_parallel hp.start_mem.1
  visit := by
    rintro t _ s previous - ⟨k, hk, rfl⟩
    have hseen : previous.map (Visit.seen .minimize) = previous := by cases previous <;> rfl
    exact hseen.symm ▸ (visit_parallel lp s previous hk).mono fun _ _ hv => hv.symm
  horizon := fun _ _ h => h.beside.same Multistage.horizon fun _ _ => rfl
  sense := fun _ _ h => h.beside.same Multistage.sense fun _ _ => rfl
  riskAverse := fun _ _ h => h.beside.same Multistage.riskAverse fun _ _ => rfl
  lastBound := fun P P' h => by
    have hseen : P.lastBound.map (Sense.orient .minimize) = P.lastBound := Option.map_id'
    exact (h.beside.same Multistage.lastBound fun _ _ => rfl).trans hseen.symm
  paths := fun _ _ h => h.paths hp
  weight := fun _ _ h _ hpath => h.weight_eq hpath
  bounded := fun P P' h b => by
    have hseen : b.map (Sense.orient .minimize) = b := Option.map_id'
    exact hseen.symm ▸ h.change (fun Q => { Q with lastBound := b }) (fun _ => rfl) (fun _ => rfl)
      (fun _ => rfl) fun _ _ => rfl
  reachable := fun _ _ h t => ⟨h.beside.reachableStates_eq t, fun _ hk => h.reachable_iff.mpr hk⟩
  outcomes := fun t k state noise hk => (onModel_parallel hk _).mono fun found _ hfound =>
    hfound.symm.trans found.seen_minimize.symm
  refineAt := fun t j found state noise hj => by
    have hseen : found.seen (Comparison.idle p p').side = found := found.seen_minimize
    exact hseen.symm ▸ refineAt_parallel found state noise hj
  computeBound := (onModel_parallel hp.start_mem.1 _).mono fun _ _ hb => hb.symm

end

end Multistage

end Recourse
