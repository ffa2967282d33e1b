import Recourse.Proofs.Mirror.SetUp

/-! Problems seen from the other side: in each model the costs are negated, and so is the bound of
the cost-to-go functions. The scenario tree is the same, so whatever is done with both, they keep
facing each other. -/

namespace Recourse

open Run (Alike Coupled)

variable {α β γ δ : Type} [Field α] [LinearOrder α]

namespace Stage

theorem leavesScenarios_mirror : LeavesScenarios (mirror : Stage α → Stage α) :=
  ⟨fun _ => rfl, fun _ => rfl⟩

def negate (m : Stage α) : Stage α :=
  { m with
    sense := m.sense.opposite
    columns := m.columns.map fun c => { c with cost := -c.cost }
    constant := -m.constant }

variable {m : Stage α}

omit [Field α] [LinearOrder α] in
theorem WellFormed.proper (h : m.WellFormed) : m.Proper where
  apart := fun i hi => by
    refine ⟨?_, by rw [h.noCostToGo.1]; exact (Option.some_ne_none i).symm⟩
    simp only [List.mem_append] at hi
    obtain (hi | hi) | hi := hi
    · exact h.states i hi
    · exact h.noise i hi
    · exact h.copies i (List.mem_append.mpr hi)
  terms := fun _ => h.terms

/-- A model without a cost-to-go variable is the same from the other side, but for its sense and its
costs. -/
theorem WellFormed.mirror_eq (h : m.WellFormed) (hsolution : m.solution = none) :
    m.mirror = m.negate := by
  have hcolumns : m.columns.mapIdx (Column.mirror none) = m.columns.map
      fun c => { c with cost := -c.cost } :=
    List.ext_getElem (by simp) fun i _ _ => by simp [Column.mirror]
  have hrows : m.rows.map (Row.mirror none) = m.rows := by
    have hrow : (Row.mirror none : Row α → Row α) = id := by
      funext r
      simp [Row.mirror, signedAt]
    rw [hrow, List.map_id]
  rw [mirror, negate, h.noCostToGo.1, h.noCostToGo.2, hsolution, hcolumns, hrows]
  rfl

end Stage

namespace Multistage

omit [Field α] [LinearOrder α] in
theorem put_mapModels (f : Stage α → Stage α) (P : Multistage α) (t k : ℕ) (m : Stage α) :
    (P.mapModels f).put t k (f m) = (P.put t k m).mapModels f := by
  have hmodels : (P.models.map (List.map f)).getD t [] = (P.models.getD t []).map f := by
    simp only [List.getD_eq_getElem?_getD, List.getElem?_map]
    cases P.models[t]? <;> rfl
  simp only [put, mapModels, hmodels, List.map_set]

variable [Numeral α] {P P' : Multistage α} {t j k : ℕ} {m : Stage α}

/-- Two problems that are the same but for the side, all models of which are proper. The outline
tells nothing but the bound once a problem is written. -/
structure Facing (P P' : Multistage α) : Prop where
  frame : P' = { P.mapModels Stage.mirror with
    outline := P'.outline, sense := P.sense.opposite, lastBound := P.lastBound.map (-·) }
  bound : P'.bound = P.bound.map Limit.opposite
  proper : ∀ t k m, P.stageAt t k = some m → m.Proper

namespace Facing

theorem same (h : P.Facing P') (f : Multistage α → β)
    (hf : ∀ (Q : Multistage α) outline sense lastBound,
      f { Q with outline, sense, lastBound } = f Q)
    (hmirror : f (P.mapModels Stage.mirror) = f P) : f P' = f P := by
  rw [h.frame, hf, hmirror]

theorem stageAt_eq (h : P.Facing P') (t k : ℕ) :
    P'.stageAt t k = (P.stageAt t k).map Stage.mirror := by
  rw [← P.stageAt_mapModels, h.frame]
  rfl

theorem model_eq (h : P.Facing P') (t k : ℤ) : P'.model t k = (P.model t k).map Stage.mirror := by
  rw [← P.model_mapModels, h.frame]
  rfl

theorem locate_eq (h : P.Facing P') (t k : ℤ) : P'.locate t k = P.locate t k :=
  h.same (locate · t k) (fun _ _ _ _ => rfl) (P.locate_mapModels Stage.mirror t k)

theorem reachableStates_eq (h : P.Facing P') (t : ℕ) : P'.reachableStates t = P.reachableStates t :=
  h.same (reachableStates · t) (fun _ _ _ _ => rfl) rfl

theorem reachableModels_eq (h : P.Facing P') (t : ℕ) :
    P'.reachableModels t = (P.reachableModels t).map Stage.mirror := by
  have hmodels : P'.models.getD t [] = (P.models.getD t []).map Stage.mirror := by
    rw [show P'.models = P.models.map (List.map Stage.mirror) from congrArg models h.frame]
    simp only [List.getD_eq_getElem?_getD, List.getElem?_map]
    cases P.models[t]? <;> rfl
  have hchain : P'.chain = P.chain := h.same chain (fun _ _ _ _ => rfl) rfl
  rw [reachableModels, reachableModels, hmodels, hchain, List.zip_map_left, List.filterMap_map,
    List.map_filterMap]
  congr 1
  funext p
  obtain ⟨m, reached⟩ := p
  cases reached <;> rfl

theorem horizon_eq (h : P.Facing P') : P'.horizon = P.horizon :=
  h.same horizon (fun _ _ _ _ => rfl) rfl

theorem isLagged_eq (h : P.Facing P') (t : ℕ) : P'.isLagged t = P.isLagged t := by
  rw [isLagged, isLagged, h.reachableModels_eq, List.any_map]
  rfl

theorem check_eq (h : P.Facing P') : P'.check = P.check := by
  have hfirst : P'.checkFirst = P.checkFirst := by
    rw [checkFirst, checkFirst, h.model_eq, h.horizon_eq]
    cases P.model 0 0 <;> rfl
  have hforM {f : Stage α → Except (Fault α) Unit} (hf : ∀ m, f m.mirror = f m)
      (ms : List (Stage α)) :
      (ms.map Stage.mirror).forM f = ms.forM f := by
    have hmap : (ms.map Stage.mirror).forM f = ms.forM fun m => f m.mirror := List.forM_map ..
    rw [hmap, funext hf]
  have hstage : P'.checkStage = P.checkStage := by
    funext t
    unfold checkStage
    rw [h.reachableModels_eq, h.reachableModels_eq]
    have hlagged (ms : List (Stage α)) :
        (ms.map Stage.mirror).any (fun m => !m.noiseCopies.isEmpty) =
        ms.any fun m => !m.noiseCopies.isEmpty := by
      rw [List.any_map]
      rfl
    rcases P.reachableModels t with _ | ⟨first, ms⟩
    · rfl
    · rw [List.map_cons]
      dsimp only
      rw [← List.map_cons, hforM (fun _ => rfl), hlagged]
      rcases P.reachableModels (t - 1) with _ | ⟨previous, ms'⟩
      · rfl
      · rw [show (previous :: ms').map Stage.mirror = previous.mirror ::
          ms'.map Stage.mirror from rfl]
        dsimp only
        rw [hforM (fun _ => rfl)]
        rfl
  rw [check, check, hfirst, hstage, h.horizon_eq]

theorem put (h : P.Facing P') (hm : P.stageAt t k = some m) {m₁ m₂ : Stage α}
    (hm' : Stage.Facing m₁ m₂) :
    (P.put t k m₁).Facing (P'.put t k m₂) where
  frame := by
    rw [hm'.mirror]
    have hput := congrArg (fun Q : Multistage α => Q.put t k m₁.mirror) h.frame
    exact hput.trans (congrArg (fun Q : Multistage α => { Q with
      outline := P'.outline, sense := P.sense.opposite, lastBound := P.lastBound.map (-·) })
      (put_mapModels Stage.mirror P t k m₁))
  bound := h.bound
  proper := fun t' k' M hM => by
    rcases stageAt_put_cases hm hM with ⟨-, -, rfl⟩ | hM
    · exact hm'.proper
    · exact h.proper t' k' M hM

end Facing

theorem onModel_facing {A : β → γ → Prop} {act : Stage.Edit α β} {act' : Stage.Edit α γ}
    (h : Coupled Stage.Facing act act' A) (t k : ℕ) : Coupled Facing (onModel t k act)
    (onModel t k act') A := by
  intro P P' hP
  rcases hm : P.stageAt t k with _ | m
  · rw [onModel_on_none hm, onModel_on_none (by rw [hP.stageAt_eq, hm]; rfl)]
    exact ⟨.error _, hP⟩
  · rw [onModel_on_some hm, onModel_on_some (by rw [hP.stageAt_eq, hm]; rfl)]
    obtain ⟨hanswer, hfacing⟩ := h m m.mirror ⟨hP.proper t k m hm, rfl⟩
    exact ⟨hanswer, hP.put hm hfacing⟩

theorem onReachable_facing {act act' : Stage.Edit α Unit}
    (h : Coupled Stage.Facing act act' Eq) (t : ℕ) :
    Coupled Facing (onReachable t act) (onReachable t act') Eq := by
  refine Coupled.get_bind fun P P' hP => ?_
  rw [hP.reachableStates_eq]
  exact Coupled.forM fun k _ => onModel_facing h t k

/-! ### The scenario tree -/

theorem Facing.paths_eq (h : P.Facing P') : P'.paths = P.paths :=
  h.same paths (fun _ _ _ _ => rfl) (paths_mapModels Stage.leavesScenarios_mirror P)

theorem Facing.weight_eq (h : P.Facing P') (path : ScenarioPath) :
    P'.weight path = P.weight path := by
  refine h.same (weight · path) (fun Q outline sense lastBound => ?_)
    (weight_mapModels Stage.leavesScenarios_mirror P path)
  have hfrom (path : ScenarioPath) (t : ℕ) (previous : Option ℤ) (w : α) :
      weightFrom { Q with outline, sense, lastBound } t previous w path =
      Q.weightFrom t previous w path := by
    induction path generalizing t previous w with
    | nil => rfl
    | cons step path ih => exact bind_congr fun _ => ih _ _ _
  exact hfrom path 0 none 1

theorem Facing.random_eq [Source γ α] (h : P.Facing P') (t : ℕ) (j : ℤ) :
    (Guide.random P' t j : Run α γ (Datum α × Datum α)) = Guide.random P t j := by
  have hdraw : (P'.drawStage t j : Run α γ (ℤ × ℤ)) = P.drawStage t j :=
    h.same (fun Q => (Q.drawStage t j : Run α γ (ℤ × ℤ))) (fun _ _ _ _ => rfl)
      (drawStage_mapModels Stage.leavesScenarios_mirror P t j)
  rw [Guide.random, Guide.random, hdraw]

/-! ### Preparation -/

section

variable [IsStrictOrderedRing α]

theorem setUpCostToGo_facing (t : ℕ) : Coupled Facing (setUpCostToGo t : Run α (Multistage α) Unit)
    (setUpCostToGo t) Eq := by
  refine Coupled.get_bind fun P P' hP => ?_
  have hterms : (P'.bound.map fun bound => (P'.discount, bound)) =
      (P.bound.map fun bound => (P.discount, bound)).map fun t => (t.1, t.2.opposite) := by
    rw [hP.bound, show P'.discount = P.discount from hP.same discount (fun _ _ _ _ => rfl) rfl]
    cases P.bound <;> rfl
  have hpruning : P'.pruning = P.pruning := hP.same pruning (fun _ _ _ _ => rfl) rfl
  have hsense : P'.sense = P.sense.opposite := congrArg sense hP.frame
  rw [hterms, hpruning, hsense, hP.isLagged_eq]
  exact onReachable_facing ((Stage.setUpCostToGo_facing _).bind_same
    fun _ => Stage.setUpPool_facing _ _ _) t

theorem prepare_facing : Coupled Facing (prepare : Run α (Multistage α) Unit) prepare Eq := by
  refine Coupled.get_bind fun P P' hP => ?_
  have hprepared : P'.prepared = P.prepared := hP.same prepared (fun _ _ _ _ => rfl) rfl
  rw [hprepared, hP.check_eq, hP.horizon_eq]
  refine .ite (.pure rfl) ((Coupled.ofExcept_eq rfl).bind_same fun _ => ?_)
  refine (Coupled.forM fun t _ => setUpCostToGo_facing t).bind_same fun _ => ?_
  refine (Coupled.forM fun t _ => onReachable_facing
    (Stage.Facing.coupled fun _ _ => Stage.setUpLinks_opposed _) t).bind_same
    fun _ => Coupled.modify fun P P' hP => ?_
  exact ⟨congrArg (fun Q : Multistage α => { Q with prepared := true }) hP.frame,
    hP.bound, hP.proper⟩

end

/-! ### Passes -/

variable {lp lp' : Solver α}

theorem visit_facing (hlp : lp.Mirrors lp') (t : ℕ) (k s : Datum α) (previous : Option (Visit α)) :
    Coupled Facing (visit lp t k s previous) (visit lp' t k s (previous.map (Visit.seen .maximize)))
      fun v v' => v' = v.seen .maximize := by
  rw [visit_eq, visit_eq]
  refine Coupled.get_bind fun P P' hP => ?_
  have hdiscount : P'.discount = P.discount := hP.same discount (fun _ _ _ _ => rfl) rfl
  have harrival : arrival (previous.map (Visit.seen .maximize)) = arrival previous := by
    cases previous <;> rfl
  rw [hdiscount, harrival]
  refine (Coupled.ofExcept_eq rfl).bind_same fun i => Coupled.get_bind fun Q Q' hQ => ?_
  rw [hQ.locate_eq]
  refine (Coupled.ofExcept_eq rfl).bind_same fun place => ?_
  exact onModel_facing (Stage.Facing.coupled fun _ _ => Stage.follow_opposed hlp _ t k s _) _ _

theorem outcomes_facing (hlp : lp.Mirrors lp') (t k : ℕ) (state : List α)
    (noise : Option (List α)) :
    Coupled Facing (outcomes lp t k state noise) (outcomes lp' t k state noise)
      fun found found' => found' = found.seen .maximize :=
  onModel_facing (Stage.Facing.coupled fun _ _ =>
    (Stage.enterIncoming_opposed state noise).bind_same fun _ =>
      Stage.solveScenarios_opposed hlp) t k

theorem computeBound_facing (hlp : lp.Mirrors lp') :
    Coupled Facing (computeBound lp) (computeBound lp') fun b b' => b' = Sense.maximize.orient b :=
  onModel_facing (Stage.Facing.coupled fun _ _ => Stage.estimate_opposed hlp) 0 0

theorem Facing.judge_eq (h : P.Facing P') (t j : ℕ) (found : Outcomes α) :
    P'.judge t j (found.seen .maximize) = (P.judge t j found).map Aggregate.mirror := by
  have hprobabilities : P'.outcomeProbabilities t j = P.outcomeProbabilities t j :=
    h.same (outcomeProbabilities · t j) (fun _ _ _ _ => rfl)
      (outcomeProbabilities_mapModels Stage.leavesScenarios_mirror P t j)
  have hmeasures : P'.measures = P.measures := h.same measures (fun _ _ _ _ => rfl) rfl
  have hsense : P'.sense = P.sense.opposite := congrArg sense h.frame
  unfold judge
  rw [hprobabilities, hmeasures, hsense]
  rcases P.outcomeProbabilities t j with e | probabilities
  · rfl
  rcases (entryAt P.measures t : Except (Fault α) _) with e | choice
  · rfl
  have hmeasure (r : Except (Fault α) (RiskMeasure α)) :
      (r >>= fun m => m.apply P.sense.opposite (found.seen .maximize).values
      (found.seen .maximize).gradients
        (some probabilities)) =
        (r >>= fun m => m.apply P.sense found.values found.gradients (some probabilities)).map
        Aggregate.mirror := by
    cases r with
    | error e => rfl
    | ok measure =>
      exact measure.apply_mirror P.sense found.values found.gradients (some probabilities)
  exact hmeasure choice.measure

theorem refineAt_facing [IsStrictOrderedRing α] (t j : ℕ) (found : Outcomes α) (state : List α)
    (noise : Option (List α)) :
    Coupled Facing (refineAt t j found state noise)
      (refineAt t j (found.seen .maximize) state noise) Eq := by
  refine Coupled.get_bind fun P P' hP => ?_
  rw [hP.judge_eq, hP.model_eq]
  refine Coupled.ofExcept_map.bind_map fun total => Coupled.ofExcept_map.bind_map fun m => ?_
  have hgradient : total.mirror.gradient.getD [] = (total.gradient.getD []).map (-·) := by
    rw [Aggregate.mirror]
    cases total.gradient <;> rfl
  rw [show m.mirror.costToGo = m.costToGo.map CostToGo.mirror from rfl]
  cases m.costToGo with
  | none => exact .throw
  | some ctg =>
    dsimp only [Option.map_some]
    rw [hgradient, show total.mirror.value = -total.value from rfl, Stage.buildCut_mirror]
    refine Coupled.ofExcept_map.bind_map fun cut => ?_
    exact (onModel_facing (Stage.Facing.coupled fun _ _ => Stage.addCut_opposed cut) _ _).bind_map
      fun _ => .pure rfl

end Multistage

section

variable [Numeral α] {p p' : Multistage α}

structure Multistage.Negates (p p' : Multistage α) : Prop where
  frame : p' = { p with
    outline := p'.outline
    sense := p.sense.opposite
    models := p.models.map (List.map Stage.negate)
    lastBound := p.lastBound.map (-·) }
  bound : p'.bound = p.bound.map Limit.opposite

/-- To negate a problem that was just written is to look at it from the other side. -/
theorem Multistage.Negates.facing (h : p.Negates p')
    (hp : ∀ t k m, p.stageAt t k = some m → m.WellFormed ∧ m.solution = none) : p.Facing p' where
  frame := by
    have hmodels : p.models.map (List.map Stage.negate) = p.models.map (List.map Stage.mirror) := by
      refine List.map_congr_left fun ms hms => List.map_congr_left fun m hm => ?_
      obtain ⟨t, hms⟩ := List.mem_iff_getElem?.mp hms
      obtain ⟨k, hm⟩ := List.mem_iff_getElem?.mp hm
      obtain ⟨hwritten, hsolution⟩ := hp t k m (Multistage.stageAt_eq_some.mpr ⟨ms, hms, hm⟩)
      exact (hwritten.mirror_eq hsolution).symm
    refine h.frame.trans ?_
    rw [hmodels]
    rfl
  bound := h.bound
  proper := fun t k m hm => (hp t k m hm).1.proper

end

/-! ### All work -/

/-- The comparison of problems that face each other: costs are seen from the other side, and both
may go anywhere. -/
def Comparison.facing [Numeral α] : Comparison α where
  related := Multistage.Facing
  side := .maximize
  step := fun _ _ => True
  state := fun _ _ => True

variable [Numeral α]

theorem Comparison.along_facing (t : ℕ) (path : ScenarioPath) : (facing (α := α)).Along t path := by
  induction path generalizing t with
  | nil => trivial
  | cons step path ih => exact ⟨trivial, ih (t + 1)⟩

theorem Guide.random_facing [Source γ α] :
    (Comparison.facing (α := α)).Guided (Guide.random : Guide γ α) := by
  intro P P' hP t j _
  rw [hP.random_eq]
  exact Coupled.refl.mono fun _ _ h => ⟨h.symm, trivial⟩

/-- Problems that face each other agree in all elementary operations. -/
theorem Solver.Mirrors.worksAlike [IsStrictOrderedRing α] {lp lp' : Solver α}
    (hlp : lp.Mirrors lp') :
    Comparison.facing.WorksAlike lp lp' where
  symmetry := Sense.isSymmetry_maximize
  prepare := Multistage.prepare_facing
  visit := fun t k s previous _ _ => Multistage.visit_facing hlp t k s previous
  horizon := fun _ _ hP => hP.horizon_eq
  sense := fun P _ hP => (congrArg Multistage.sense hP.frame).trans P.sense.facing_maximize.symm
  riskAverse := fun _ _ hP => hP.same Multistage.riskAverse (fun _ _ _ _ => rfl) rfl
  lastBound := fun _ _ hP => congrArg Multistage.lastBound hP.frame
  paths := fun _ _ hP => ⟨hP.paths_eq, fun path _ => Comparison.along_facing 0 path⟩
  weight := fun _ _ hP path _ => hP.weight_eq path
  bounded := fun _ _ hP b =>
    ⟨congrArg (fun Q : Multistage α => { Q with lastBound := b.map (-·) }) hP.frame,
      hP.bound, hP.proper⟩
  reachable := fun _ _ hP t => ⟨hP.reachableStates_eq t, fun _ _ => trivial⟩
  outcomes := fun t k state noise _ => Multistage.outcomes_facing hlp t k state noise
  refineAt := fun t j found state noise _ => Multistage.refineAt_facing t j found state noise
  computeBound := Multistage.computeBound_facing hlp

end Recourse
