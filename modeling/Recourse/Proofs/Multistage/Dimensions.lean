import Recourse.Problems
import Recourse.Proofs.Fraction
import Recourse.Proofs.Multistage.Frame
import Recourse.Proofs.Multistage.Writing

/-! The dimensions of what is passed between stages. The checks compare the models of neighbouring
stages pair by pair, each stage through one representative; here the agreement is followed into the
passes. What a visit records fits the links of every reachable model of the next stage, what the
outcomes of those models give fits the cost-to-go function of every reachable model of the stage
before, and so does each cut. -/

namespace Recourse

open Run (Keeps Triple)

variable {γ α β : Type}

/-! ### Sizes of what a model gives -/

namespace Stage

variable [Scalar α] [Numeral α] {b : Stage α}

/-- What a visit records is as large as the states and the noise of the model. -/
theorem follow_sizes (lp : Solver α) (discount : α) (t : ℕ) (k s : Datum α) (arrival : Arrival α) :
    Triple (fun m => m.bare = b) (follow lp discount t k s arrival)
      (fun v m => m.bare = b ∧ v.state.length = b.states.length ∧ v.noise.length = b.noise.length)
      fun m => m.bare = b := by
  have hentered : Keeps (fun m : Stage α => m.bare = b) (enterArrival arrival) := by
    cases arrival with
    | none => exact .pure
    | some entry => exact (bare_steady b).enterIncoming _ _
  refine Triple.bind hentered fun _ => Triple.bind ((bare_steady b).enterScenario s) fun _ => ?_
  refine Triple.bind ((bare_steady b).solve lp _ _) fun x =>
    Triple.get_bind fun m hm => Triple.pure fun m' hm' => ?_
  rw [hm']
  refine ⟨hm, ?_, ?_⟩ <;> rw [← hm] <;> simp [bare]

theorem solveScenario_sizes (lp : Solver α) (k : ℕ) :
    Triple (fun m => m.bare = b) (solveScenario lp k)
      (fun x m => m.bare = b ∧ x.2.length = b.links.length + b.noiseLinks.length)
      fun m => m.bare = b := by
  refine Triple.bind ((bare_steady b).enterScenario _) fun _ =>
    Triple.bind ((bare_steady b).solve lp _ _) fun x => ?_
  refine Triple.get_bind fun m hm => Triple.pure fun m' hm' => ?_
  rw [hm']
  refine ⟨hm, ?_⟩
  rw [← hm]
  simp [bare]

theorem solveScenarios_sizes (lp : Solver α) :
    Triple (fun m => m.bare = b) (solveScenarios lp)
      (fun o m => m.bare = b ∧ o.gradients.length = b.sampleCount ∧
        ∀ row ∈ o.gradients, row.length = b.links.length + b.noiseLinks.length)
          fun m => m.bare = b := by
  refine Triple.get_bind fun m hm => ?_
  refine Triple.conseq (P := fun m => m.bare = b) ?_ (fun s hs => hs ▸ hm) (fun _ _ h => h)
    fun _ h => h
  refine Triple.bind
    (Triple.mapM (S := fun _ x => x.2.length = b.links.length + b.noiseLinks.length)
    fun k _ => solveScenario_sizes lp k) fun results => Triple.pure
    fun s hs => ⟨hs.1, ?_, fun row hrow => ?_⟩
  · have hcount : m.sampleCount = b.sampleCount := by
      rw [← hm]
      rfl
    rw [List.length_map, ← hs.2.length_eq, List.length_range, hcount]
  · obtain ⟨x, hx, rfl⟩ := List.mem_map.mp hrow
    obtain ⟨i, hi, rfl⟩ := List.getElem_of_mem hx
    exact hs.2.get (hs.2.length_eq ▸ hi) hi

end Stage

theorem RiskMeasure.length_of_apply [Scalar α] {measure : RiskMeasure α} {sense : Sense}
    {values : List α} {rows : List (List α)} {p : Option (List α)} {total : Aggregate α} {n : ℕ}
    (h : measure.apply sense values rows p = .ok total) (hne : rows ≠ [])
    (hrows : ∀ row ∈ rows, row.length = n) :
    (total.gradient.getD []).length = n := by
  obtain ⟨row, rows, rfl⟩ := List.exists_cons_of_ne_nil hne
  have hweigh {weights : List α} (h : weigh weights values (row :: rows) = .ok total) :
      (total.gradient.getD []).length = n := by
    unfold weigh at h
    split_ifs at h
    dsimp only at h
    split_ifs at h
    cases h
    simp [Scalar.weightedRows, hrows row List.mem_cons_self]
  cases measure with
  | expectation => exact hweigh h
  | worstCase =>
    change worstOutcome sense values _ (row :: rows) = .ok total at h
    unfold worstOutcome at h
    dsimp only at h
    split at h
    · split_ifs at h with hnone halike halike
      · cases h
      · cases h
      · obtain ⟨value, -, h⟩ := ok_of_bind h
        obtain ⟨worst, hworst, h⟩ := ok_of_bind h
        cases h
        exact hrows worst (List.mem_of_getElem? (entryAt_ok hworst))
      · obtain ⟨value, -, h⟩ := ok_of_bind h
        cases h
    · cases h
  | tail a =>
    obtain ⟨_, -, h⟩ := ok_of_bind h
    obtain ⟨_, -, h⟩ := ok_of_bind h
    exact hweigh h
  | mixed a l =>
    obtain ⟨_, -, h⟩ := ok_of_bind h
    obtain ⟨_, -, h⟩ := ok_of_bind h
    obtain ⟨_, -, h⟩ := ok_of_bind h
    obtain ⟨_, -, h⟩ := ok_of_bind h
    exact hweigh h

namespace Multistage

variable {P : Multistage α}

/-! ### Walks -/

theorem exists_stageAt_of_locate {t k : ℤ} {place : ℕ × ℕ} (h : P.locate t k = .ok place) :
    ∃ m, P.stageAt place.1 place.2 = some m := by
  have hlt {i : ℤ} {n j : ℕ} (h : resolve i n = some j) : j < n := by
    unfold resolve at h
    dsimp only at h
    split_ifs at h with hsign hrange hrange
    all_goals
      obtain rfl := Option.some.inj h
      omega
  unfold locate at h
  rcases ht : resolve t P.models.length with _ | i
  · rw [ht] at h
    cases h
  rw [ht] at h
  dsimp only at h
  rcases hk : resolve k (P.models.getD i []).length with _ | j
  · rw [hk] at h
    cases h
  rw [hk] at h
  obtain rfl := Except.ok.inj h
  have hi := hlt ht
  have hj := hlt hk
  rw [List.getD_eq_getElem?_getD, List.getElem?_eq_getElem hi, Option.getD_some] at hj
  exact ⟨P.models[i][j], stageAt_eq_some.mpr
    ⟨P.models[i], List.getElem?_eq_getElem hi, List.getElem?_eq_getElem hj⟩⟩

variable [Scalar α] [Numeral α]

/-- Whether what a visit of stage `t` recorded is as large as the states and the noise of the model
that it visited. -/
def Recorded (P : Multistage α) (t : ℕ) (v : Visit α) : Prop :=
  ∀ i j m, v.markovState.asWhole = .ok i → P.locate t i = .ok (t, j) → P.stageAt t j = some m →
    v.state.length = m.states.length ∧ v.noise.length = m.noise.length

theorem visit_recorded (lp : Solver α) (t : ℕ) (k s : Datum α) (previous : Option (Visit α))
    (S : Multistage α) :
    Triple (fun P => P.skeleton = S) (visit lp t k s previous)
      (fun v P => P.skeleton = S ∧ S.Recorded t v)
      fun P => P.skeleton = S := by
  have hsizes : Triple (fun P => P.skeleton = S) (visit lp t k s previous)
      (fun v P => P.skeleton = S ∧ ∃ i place m, k.asWhole = .ok i ∧ S.locate t i = .ok place ∧
        S.stageAt place.1 place.2 = some m ∧ v.state.length = m.states.length ∧
        v.noise.length = m.noise.length)
      fun P => P.skeleton = S := by
    rw [visit_eq]
    refine Triple.get_bind_any fun P => ?_
    refine Triple.bind (Q := fun i P => P.skeleton = S ∧ k.asWhole = .ok i)
      (Triple.ofExcept (fun _ _ hP h => ⟨hP, h⟩) fun _ hP => hP) fun i => Triple.of_and fun hi => ?_
    refine Triple.get_bind fun P' hP' => ?_
    refine Triple.conseq (P := fun P => P.skeleton = S) ?_ (fun P hP => hP ▸ hP') (fun _ _ h => h)
      fun _ h => h
    refine Triple.bind (Q := fun place P => P.skeleton = S ∧ P'.locate t i = .ok place)
      (Triple.ofExcept (fun _ _ hP h => ⟨hP, h⟩) fun _ hP => hP) fun place =>
      Triple.of_and fun hplace => ?_
    rw [← locate_skeleton, hP'] at hplace
    refine onModel_triple (fun Q m hQ hm => ?_) fun _ hQ _ => hQ
    have hstage : S.stageAt place.1 place.2 = some m.bare := by
      rw [← hQ, stageAt_skeleton, hm]
      rfl
    refine (Stage.follow_sizes (b := m.bare) lp P.discount t k s (arrival previous)).conseq
      (fun s hs => by rw [hs])
      (fun v m' hv => ?_) fun m' hm' => (skeleton_put hm hm').trans hQ
    exact ⟨(skeleton_put hm hv.1).trans hQ, i, place, m.bare, hi, hplace, hstage, hv.2⟩
  refine ((Triple.and hsizes (visit_place lp t k s previous)).conseq (fun _ hP => ⟨hP, trivial⟩)
    (fun v P h => ?_)
    fun _ hP => hP.1)
  obtain ⟨⟨hP, i, place, m, hi, hplace, hm, hsizes⟩, hk, -⟩ := h
  refine ⟨hP, fun i' j m' hi' hj hm' => ?_⟩
  rw [hk] at hi'
  obtain rfl := Except.ok.inj (hi.symm.trans hi')
  obtain rfl := Except.ok.inj (hplace.symm.trans hj)
  obtain rfl := Option.some.inj (hm.symm.trans hm')
  exact hsizes

theorem walkFrom_recorded (lp : Solver α) (guide : Guide γ α) (S : Multistage α) (n t : ℕ)
    (previous : Option (Visit α)) :
    Triple (fun x : Simulation γ α => x.problem.skeleton = S) (walkFrom lp guide n t previous)
      (fun vs x => x.problem.skeleton = S ∧ ∀ i v, vs[i]? = some v → S.Recorded (t + i) v)
      fun x => x.problem.skeleton = S := by
  induction n generalizing t previous with
  | zero => exact Triple.pure fun _ hx => ⟨hx, by simp⟩
  | succ n ih =>
    refine Triple.get_bind_any fun x => ?_
    have hguide : Keeps (fun x : Simulation γ α => x.problem.skeleton = S)
        (Simulation.onSource (guide x.problem t
        ((previous.bind fun v => v.markovState.int?).getD 0))) :=
      Keeps.iff_on.mpr fun _ hx => hx
    have hvisit (k s : Datum α) : Triple (fun x : Simulation γ α => x.problem.skeleton = S)
        (Simulation.onProblem (visit lp t k s previous))
        (fun v x => x.problem.skeleton = S ∧ S.Recorded t v) fun x => x.problem.skeleton = S :=
      Triple.zoom_conseq (visit_recorded lp t k s previous S) (fun _ hx => hx)
        (fun _ _ _ _ hv => hv) fun _ _ _ hP => hP
    refine Triple.bind hguide fun place =>
      Triple.bind (hvisit place.1 place.2) fun v => Triple.of_and fun hv => ?_
    refine Triple.bind (ih (t + 1) (some v)) fun rest =>
      Triple.pure fun x hx => ⟨hx.1, fun i w hw => ?_⟩
    cases i with
    | zero =>
      obtain rfl := Option.some.inj hw
      exact hv
    | succ i =>
      have hplace : t + (i + 1) = t + 1 + i := by omega
      rw [hplace]
      exact hx.2 i w hw

end Multistage

namespace Multistage

variable {P₀ P P' : Multistage α} {t j k : ℕ} {m m' : Stage α} {ctg : CostToGo α}

/-! ### Problems in proportion -/

/-- A problem whose reachable models agree with each other, stage by stage, and are joined. -/
structure Proportioned (P : Multistage α) : Prop where
  horizon : 0 < P.horizon
  aligned : P.Aligned
  inhabited : ∀ t < P.horizon, ∃ k ∈ P.reachableStates t, ∃ m, P.stageAt t k = some m
  models : ∀ t k m, t < P.horizon → k ∈ P.reachableStates t → P.stageAt t k = some m →
    m.Fitted (t = 0) (P.isLagged (t + 1)) (t + 1 < P.horizon) true ∧ m.sampleCount ≠ 0

theorem Aligned.of_draft (h : P.draft = P'.draft) (hP' : P'.Aligned) : P.Aligned where
  copies := by
    intro t j k m n ht hj hm hk hn
    obtain ⟨m', hm', hdraft⟩ := exists_draft h hm
    obtain ⟨n', hn', hdraft'⟩ := exists_draft h hn
    rw [reachableStates_of_draft h] at hj hk
    have hsizes := hP'.copies t j k m' n' (horizon_of_draft h ▸ ht) hj hm' hk hn'
    have hstates : m'.states = m.states := (congrArg Stage.states hdraft :)
    have hcopies : n'.copies = n.copies := (congrArg Stage.copies hdraft' :)
    rwa [hstates, hcopies] at hsizes
  noiseCopies := by
    intro t j k m n ht hj hm hk hn
    obtain ⟨m', hm', hdraft⟩ := exists_draft h hm
    obtain ⟨n', hn', hdraft'⟩ := exists_draft h hn
    rw [reachableStates_of_draft h] at hj hk
    have hsizes := hP'.noiseCopies t j k m' n' (horizon_of_draft h ▸ ht) hj hm' hk hn'
    have hnoise : m'.noise = m.noise := (congrArg Stage.noise hdraft :)
    have hcopies : n'.noiseCopies = n.noiseCopies := (congrArg Stage.noiseCopies hdraft' :)
    rwa [hnoise, hcopies, ← isLagged_of_draft h] at hsizes

theorem Proportioned.of_frame (hP₀ : P₀.Proportioned) (h : P.frame = P₀.frame) :
    P.Proportioned := by
  have hdraft : P.draft = P₀.draft := eq_of_frame draft (fun P => P.draft_skeleton) h
  have hhorizon := horizon_of_draft hdraft
  have hstates := reachableStates_of_draft hdraft
  refine ⟨hhorizon.symm ▸ hP₀.horizon, hP₀.aligned.of_draft hdraft,
    fun t ht => ?_, fun t k M ht hk hM => ?_⟩
  · obtain ⟨k, hk, m, hm⟩ := hP₀.inhabited t (hhorizon ▸ ht)
    obtain ⟨M, hM, -⟩ := exists_of_frame h.symm hm
    exact ⟨k, hstates t ▸ hk, M, hM⟩
  · obtain ⟨m, hm, hbare⟩ := exists_of_frame h hM
    rw [hhorizon] at ht
    rw [hstates] at hk
    obtain ⟨hfitted, hsamples⟩ := hP₀.models t k m ht hk hm
    have hcount : M.sampleCount = m.sampleCount := (congrArg Stage.sampleCount hbare).symm
    rw [isLagged_of_draft hdraft, hhorizon, hcount]
    exact ⟨hfitted.of_bare hbare.symm, hsamples⟩

/-- Preparation brings what was only written into proportion. -/
theorem proportioned_of_prepare [Field α] [LinearOrder α] [Numeral α] {p : Multistage α}
    (hp : p.Loose) (hpositive : 0 < p.horizon) (h : prepare.on p = (.ok (), P₀)) :
    P₀.Proportioned := by
  have hcheck := check_of_prepare hp.unprepared h
  have hdraft := draft_of_prepare h
  have hhorizon := horizon_of_draft hdraft
  have hstates := reachableStates_of_draft hdraft
  refine ⟨hhorizon.symm ▸ hpositive, (aligned_of_check hcheck).of_draft hdraft,
    fun t ht => ?_, fun t k M ht hk hM => ?_⟩
  · obtain ⟨k, hk, m, hm⟩ := exists_reachable_of_check hcheck (hhorizon ▸ ht)
    obtain ⟨M, hM, -⟩ := exists_draft hdraft.symm hm
    exact ⟨k, hstates t ▸ hk, M, hM⟩
  · obtain ⟨m, hm, hsame⟩ := exists_draft hdraft hM
    have hbuilt := hp.models t k m hm
    rw [hhorizon] at ht
    rw [hstates] at hk
    obtain ⟨M', hM', hfitted⟩ := fitted_of_prepare hp.unprepared h hk ht hm hbuilt.toAlone
    obtain rfl := Option.some.inj (hM.symm.trans hM')
    have hsamples : M.sampleCount = m.sampleCount := (congrArg Stage.sampleCount hsame).symm
    rw [isLagged_of_draft hdraft, hhorizon, hsamples]
    exact ⟨hfitted, hbuilt.samples⟩

/-! ### Links -/

namespace Proportioned

variable (hP : P.Proportioned)
include hP

/-- The links of a model fit what goes out of each reachable model of the stage before. -/
theorem links_length (ht : t + 1 < P.horizon) (hj : j ∈ P.reachableStates t)
    (hm : P.stageAt t j = some m) (hk : k ∈ P.reachableStates (t + 1))
    (hm' : P.stageAt (t + 1) k = some m') :
    m'.links.length = m.states.length ∧ m'.noiseLinks.length = if P.isLagged (t + 1) then
    m.noise.length else 0 := by
  have hfitted := (hP.models (t + 1) k m' ht hk hm').1
  obtain ⟨hlinks, hnoiseLinks⟩ := hfitted.links (by simp) (hfitted.linked rfl)
  rw [hlinks, hnoiseLinks]
  exact ⟨hP.aligned.copies t j k m m' ht hj hm hk hm',
    hP.aligned.noiseCopies t j k m m' ht hj hm hk hm'⟩

theorem exists_costToGo (ht : t + 1 < P.horizon) (hj : j ∈ P.reachableStates t)
    (hm : P.stageAt t j = some m) :
    ∃ ctg, m.costToGo = some ctg ∧ ctg.lagged = P.isLagged (t + 1) ∧
      ctg.pool.box.lower.length = (m.cutColumns ctg).length ∧
      ctg.pool.box.upper.length = (m.cutColumns ctg).length := by
  have hfitted := (hP.models t j m (by omega) hj hm).1
  obtain ⟨ctg, hctg⟩ := Option.isSome_iff_exists.mp (hfitted.equipped (by simpa using ht))
  exact ⟨ctg, hctg, hfitted.costToGo ctg hctg⟩

/-- All links together are as many as the columns that the cuts of the stage before are a function
of. -/
theorem gradient_length (ht : t + 1 < P.horizon) (hj : j ∈ P.reachableStates t)
    (hm : P.stageAt t j = some m)
    (hk : k ∈ P.reachableStates (t + 1)) (hm' : P.stageAt (t + 1) k = some m')
    (hlagged : ctg.lagged = P.isLagged (t + 1)) :
    m'.links.length + m'.noiseLinks.length = (m.cutColumns ctg).length := by
  obtain ⟨hlinks, hnoiseLinks⟩ := hP.links_length ht hj hm hk hm'
  rw [hlinks, hnoiseLinks, Stage.cutColumns, hlagged]
  cases P.isLagged (t + 1) <;> simp

/-! ### Outcomes and cuts -/

variable [Scalar α] [Numeral α]

theorem outcomes_length (ht : t + 1 < P.horizon) (hj : j ∈ P.reachableStates t)
    (hm : P.stageAt t j = some m)
    (hlagged : ctg.lagged = P.isLagged (t + 1)) (hk : k ∈ P.reachableStates (t + 1))
    {P₁ P₂ : Multistage α}
    (hP₁ : P₁.frame = P.frame) {lp : Solver α} {state : List α} {noise : Option (List α)}
    {o : Outcomes α} (h : (outcomes lp (t + 1) k state noise).on P₁ = (.ok o, P₂)) :
    o.gradients ≠ [] ∧ ∀ row ∈ o.gradients, row.length = (m.cutColumns ctg).length := by
  rcases hstage : P₁.stageAt (t + 1) k with _ | M
  · rw [outcomes, onModel_on_none hstage] at h
    cases h
  · obtain ⟨m', hm', hbare⟩ := exists_of_frame hP₁ hstage
    have hsizes : Triple (fun s => s.bare = m'.bare)
        (do Stage.enterIncoming state noise; Stage.solveScenarios lp)
        (fun o s => s.bare = m'.bare ∧ o.gradients.length = m'.sampleCount ∧
          ∀ row ∈ o.gradients, row.length = m'.links.length + m'.noiseLinks.length)
          fun s => s.bare = m'.bare :=
      Triple.bind ((Stage.bare_steady _).enterIncoming state noise) fun _ =>
        Stage.solveScenarios_sizes lp
    rw [outcomes, onModel_on_some hstage] at h
    obtain ⟨-, hcount, hrows⟩ := (hsizes M hbare.symm).1 o _ (Prod.ext (Prod.mk.inj h).1 rfl)
    refine ⟨fun hnil => ?_, fun row hrow => ?_⟩
    · rw [hnil] at hcount
      exact (hP.models (t + 1) k m' ht hk hm').2 hcount.symm
    · rw [hrows row hrow]
      exact hP.gradient_length ht hj hm hk hm' hlagged

end Proportioned

/-- Outcomes of all reachable models of a stage at a trial point, each found at some time. -/
def Collected [Scalar α] [Numeral α] (P : Multistage α) (t : ℕ) (state : List α)
    (noise : Option (List α)) (found : List (Outcomes α)) : Prop :=
  List.Forall₂ (fun k o => ∃ (lp : Solver α) (P₁ P₂ : Multistage α),
      Relation.ReflTransGen Use P P₁ ∧
    (outcomes lp t k state noise).on P₁ = (.ok o, P₂)) (P.reachableStates t) found

/-- What a pass backwards goes by: it solves the reachable models of a stage one after the other. -/
theorem collected_of_mapM [Scalar α] [Numeral α] {lp : Solver α} {state : List α}
    {noise : Option (List α)} {found : List (Outcomes α)}
    (h : ((P.reachableStates t).mapM fun k => outcomes lp t k state noise).on P = (.ok found, P')) :
    P.Collected t state noise found := by
  have hloop (ks : List ℕ) {P₁ : Multistage α} (huse : Relation.ReflTransGen Use P P₁)
      {found : List (Outcomes α)}
      (h : (ks.mapM fun k => outcomes lp t k state noise).on P₁ = (.ok found, P')) :
      List.Forall₂ (fun k o => ∃ (lp : Solver α) (P₁ P₂ : Multistage α),
      Relation.ReflTransGen Use P P₁ ∧
        (outcomes lp t k state noise).on P₁ = (.ok o, P₂)) ks found := by
    induction ks generalizing P₁ found with
    | nil =>
      cases h
      exact .nil
    | cons k ks ih =>
      rw [List.mapM_cons] at h
      obtain ⟨o, P₂, hone, h⟩ := Run.exists_of_bind h
      obtain ⟨rest, P₃, hrest, h⟩ := Run.exists_of_bind h
      cases h
      have hwork := Work.outcomes lp t k state noise P₁
      rw [hone] at hwork
      exact .cons ⟨lp, P₁, P₂, huse, hone⟩ (ih (huse.tail (.work hwork)) hrest)
  exact hloop _ .refl h

theorem cutFor_length [Scalar α] [Numeral α] (hm : P.stageAt t j = some m)
    (hctg : m.costToGo = some ctg) {found : Outcomes α} (hne : found.gradients ≠ [])
    (hrows : ∀ row ∈ found.gradients, row.length = (m.cutColumns ctg).length) {state : List α}
    {noise : Option (List α)} {c : Cut α} (h : P.cutFor (t + 1) j found state noise = .ok c) :
    c.slopes.length = m.states.length ∧ c.noiseSlopes.length = if ctg.lagged then m.noise.length
      else 0 := by
  obtain ⟨total, htotal, h⟩ := ok_of_bind h
  obtain ⟨M, hM, hcut⟩ := ok_of_bind h
  obtain ⟨_, -, htotal⟩ := ok_of_bind htotal
  obtain ⟨_, -, htotal⟩ := ok_of_bind htotal
  obtain ⟨measure, -, htotal⟩ := ok_of_bind htotal
  have hgradient := RiskMeasure.length_of_apply htotal hne hrows
  obtain rfl := Option.some.inj ((model_ok hM).symm.trans hm)
  unfold Stage.newCut at hcut
  rw [hctg] at hcut
  dsimp only at hcut
  unfold Stage.buildCut at hcut
  cases hlagged : ctg.lagged with
  | false =>
    rw [Stage.cutColumns, hlagged] at hgradient
    rw [if_neg (by simp [hlagged])] at hcut
    split_ifs at hcut
    cases hcut
    exact ⟨hgradient, rfl⟩
  | true =>
    rw [Stage.cutColumns, hlagged] at hgradient
    rw [if_pos hlagged] at hcut
    dsimp only at hcut
    split_ifs at hcut
    cases noise with
    | none => cases hcut
    | some noise =>
      dsimp only at hcut
      split_ifs at hcut
      cases hcut
      simp only [if_true, List.length_append] at hgradient
      simp [Cut.through, hgradient]

/-- What the passes ask of the dimensions. What is recorded on a stage fits the links of the next,
on each of its reachable models. What a pass backwards collects are outcomes of these models. They
have gradients in what the cost-to-go function of each reachable model before them is a function of,
and each cut that is made of them fits that function and its box. -/
structure PassesFit [Scalar α] [Numeral α] (P : Multistage α) : Prop where
  start : ∀ k m, k ∈ P.reachableStates 0 → P.stageAt 0 k = some m → m.links = [] ∧ m.noiseLinks = []
  forward : ∀ (lp : Solver α) (γ : Type) (guide : Guide γ α) (x x' : Simulation γ α)
    (walked : Trajectory α),
    x.problem = P → (walk lp guide).on x = (.ok walked, x') →
    ∀ t v i j, t + 1 < P.horizon → walked[t]? = some v → v.markovState.asWhole = .ok i →
      P.locate t i = .ok (t, j) →
      j ∈ P.reachableStates t → ∀ k m,
        k ∈ P.reachableStates (t + 1) → P.stageAt (t + 1) k = some m →
        m.links.length = v.state.length ∧ m.noiseLinks.length = if P.isLagged (t + 1) then
          v.noise.length else 0
  collects : ∀ (lp : Solver α) t state noise found P',
    ((P.reachableStates t).mapM fun k => outcomes lp t k state noise).on P = (.ok found, P') →
    P.Collected t state noise found
  backward : ∀ t j m, t + 1 < P.horizon → j ∈ P.reachableStates t → P.stageAt t j = some m →
    ∃ ctg, m.costToGo = some ctg ∧ ctg.lagged = P.isLagged (t + 1) ∧
      ctg.pool.box.lower.length = (m.cutColumns ctg).length ∧
        ctg.pool.box.upper.length = (m.cutColumns ctg).length ∧
      ∀ state noise found, P.Collected (t + 1) state noise found →
        (∀ o ∈ found, ∀ row ∈ o.gradients, row.length = (m.cutColumns ctg).length) ∧
        ∀ P' c, Relation.ReflTransGen Use P P' →
          P'.cutFor (t + 1) j (gather found) state noise = .ok c →
          c.slopes.length = m.states.length ∧
            c.noiseSlopes.length = (if ctg.lagged then m.noise.length else 0) ∧
          c.gradient.length = ctg.pool.box.lower.length ∧
            c.gradient.length = ctg.pool.box.upper.length

/-- Every reachable model contributes gradients, all in what the cost-to-go function before it is a
function of. -/
theorem Proportioned.collected_length [Scalar α] [Numeral α] (hP : P.Proportioned)
    (hprepared : P.prepared = true) (ht : t + 1 < P.horizon) (hj : j ∈ P.reachableStates t)
    (hm : P.stageAt t j = some m) (hlagged : ctg.lagged = P.isLagged (t + 1)) {state : List α}
    {noise : Option (List α)} {found : List (Outcomes α)}
    (hfound : P.Collected (t + 1) state noise found) :
    (gather found).gradients ≠ [] ∧
    ∀ o ∈ found, ∀ row ∈ o.gradients, row.length = (m.cutColumns ctg).length := by
  have hsizes : ∀ o ∈ found, o.gradients ≠ [] ∧
      ∀ row ∈ o.gradients, row.length = (m.cutColumns ctg).length := by
    intro o ho
    obtain ⟨i, hi, rfl⟩ := List.getElem_of_mem ho
    have hi' : i < (P.reachableStates (t + 1)).length := by rwa [hfound.length_eq]
    obtain ⟨lp, P₁, P₂, huse, hrun⟩ := hfound.get hi' hi
    exact hP.outcomes_length ht hj hm hlagged (List.getElem_mem hi')
      (frame_of_use hprepared huse).2 hrun
  refine ⟨?_, fun o ho => (hsizes o ho).2⟩
  obtain ⟨k, hk, -⟩ := hP.inhabited (t + 1) ht
  obtain ⟨i, hi, -⟩ := List.getElem_of_mem hk
  have hi' : i < found.length := hfound.length_eq ▸ hi
  obtain ⟨row, hrow⟩ := List.exists_mem_of_ne_nil _ (hsizes found[i] (List.getElem_mem hi')).1
  exact List.ne_nil_of_mem (List.mem_flatMap.mpr ⟨found[i], List.getElem_mem hi', hrow⟩)

theorem Proportioned.passesFit [Scalar α] [Numeral α] (hP : P.Proportioned)
    (hprepared : P.prepared = true) :
    P.PassesFit where
  start := by
    intro k m hk hm
    exact (hP.models 0 k m hP.horizon hk hm).1.unlinked rfl
  forward := by
    intro lp γ guide x x' walked hx hrun t v i j ht hv hi hplace hj k m hk hm
    obtain ⟨M, hM⟩ := exists_stageAt_of_locate hplace
    have hwalk : (walkFrom lp guide x.problem.horizon 0 none).on x = (.ok walked, x') := hrun
    have hrecorded := ((walkFrom_recorded lp guide P.skeleton _ 0 none x (congrArg skeleton hx)).1
      walked x' hwalk).2 t v hv
    rw [Nat.zero_add] at hrecorded
    have hbare : P.skeleton.stageAt t j = some M.bare := by
      rw [stageAt_skeleton, hM]
      rfl
    obtain ⟨hstate, hnoise⟩ := hrecorded i j M.bare hi (by rw [locate_skeleton, hplace]) hbare
    have hlinks := hP.links_length ht hj hM hk hm
    rw [hstate, hnoise]
    exact hlinks
  collects := fun _ _ _ _ _ _ h => collected_of_mapM h
  backward := by
    intro t j m ht hj hm
    obtain ⟨ctg, hctg, hlagged, hlower, hupper⟩ := hP.exists_costToGo ht hj hm
    refine ⟨ctg, hctg, hlagged, hlower, hupper, fun state noise found hfound => ?_⟩
    obtain ⟨hne, hsizes⟩ := hP.collected_length hprepared ht hj hm hlagged hfound
    refine ⟨hsizes, fun P' c huse hcut => ?_⟩
    have hsame : P'.cutFor (t + 1) j (gather found) state noise = P.cutFor (t + 1) j
        (gather found) state noise :=
      eq_of_frame (fun P => P.cutFor (t + 1) j (gather found) state noise)
        (fun P => P.cutFor_skeleton _ _ _ _ _)
        (frame_of_use hprepared huse).2
    rw [hsame] at hcut
    have hrows : ∀ row ∈ (gather found).gradients, row.length = (m.cutColumns ctg).length := by
      intro row hrow
      obtain ⟨o, ho, hrow⟩ := List.mem_flatMap.mp hrow
      exact hsizes o ho row hrow
    obtain ⟨hslopes, hnoiseSlopes⟩ := cutFor_length hm hctg hne hrows hcut
    have hgradient : c.gradient.length = (m.cutColumns ctg).length := by
      rw [Cut.gradient, List.length_append, hslopes, hnoiseSlopes, Stage.cutColumns]
      cases ctg.lagged <;> simp
    exact ⟨hslopes, hnoiseSlopes, hgradient.trans hlower.symm, hgradient.trans hupper.symm⟩

/-- Whatever the calls are by which a problem is written, accepted or refused, and whatever is done
with it once it is prepared: what is passed between its stages has the dimensions of what takes
it. -/
theorem passesFit_of_use [Field α] [LinearOrder α] [IsStrictOrderedRing α] [Numeral α]
    {o : Outline α} {p : Multistage α} {steps : List (WriteStep α)} (hcreate : create o = .ok p)
    (hunprepared : (write steps p).prepared = false)
    (hprepare : prepare.on (write steps p) = (.ok (), P₀)) (huse : Relation.ReflTransGen Use P₀ P) :
    P.PassesFit := by
  have hwritten : (write steps p).Written := (written_of_create hcreate).write steps
  have hloose : (write steps p).Loose := hwritten.loose hunprepared hprepare
  have hP₀ : P₀.Proportioned := proportioned_of_prepare hloose hwritten.charted.horizon hprepare
  have hprepared : P₀.prepared = true := (prepare_prepared _ trivial).1 () P₀ hprepare
  obtain ⟨hprepared', hframe⟩ := frame_of_use hprepared huse
  exact (hP₀.of_frame hframe).passesFit hprepared'

end Multistage

namespace Problems

def storage : Stage.BuildStep ℚ :=
  .state { name := .text "storage", lower := .int 0, upper := .int 9, cost := .int 1 } .null

/-- A stage is left without a state, so the first attempt to prepare the problem is refused. Then
the state is added, with noise that follows nothing. -/
def storageSteps : List (Multistage.WriteStep ℚ) :=
  [.model 0 0 storage, .prepare, .model 1 0 storage,
    .model 1 0 (.noise (.list [.int 2, .int 3]) none (.text "inflow"))]

end Problems

open Multistage in
theorem Multistage.passesFit_of_use_storage : ∃ p P₀ : Multistage ℚ,
    create (Problems.outline (.int 2) (.int 0)) = .ok p ∧
    (write Problems.storageSteps p).prepared = false ∧
    prepare.on (write Problems.storageSteps p) = (.ok (), P₀) ∧ P₀.PassesFit ∧
    (P₀.stageAt 1 0).map (fun m => (m.links.length, m.noiseLinks.length)) = some (1, 0) := by
  have hfacts : ((create (Problems.outline (.int 2) (.int 0))).toOption.map fun p : Multistage ℚ =>
      ((write Problems.storageSteps p).prepared,
        (prepare.on (write Problems.storageSteps p)).1.isOk,
        ((prepare.on (write Problems.storageSteps p)).2.stageAt 1 0).map fun m =>
        (m.links.length, m.noiseLinks.length))) =
      some (false, true, some (1, 0)) := by decide +kernel
  obtain ⟨p, hp, hfacts⟩ := Option.map_eq_some_iff.mp hfacts
  have hcreate := ok_of_toOption hp
  obtain ⟨hunprepared, hok, hlinks⟩ : _ ∧ _ ∧ _ := by simpa only [Prod.mk.injEq] using hfacts
  have hprepare := Run.on_of_isOk hok
  exact ⟨p, _, hcreate, hunprepared, hprepare,
    passesFit_of_use hcreate hunprepared hprepare .refl, hlinks⟩

end Recourse
