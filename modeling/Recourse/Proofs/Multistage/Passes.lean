import Recourse.Proofs.Multistage.Validity

/-! Forward and backward passes keep the invariant of training, step by step and however a step
ends. A step forward visits one model; a step backward solves the models of a stage at a trial point
and adds a cut to each model of the stage before; the bound comes from the first stage. -/

namespace Recourse.Multistage

open Run (Triple Keeps)

variable {α : Type} [Field α] [LinearOrder α] [Numeral α] {p P : Multistage α} {lp : Solver α}
  {F : Prospect α}
  {t j k : ℕ}

/-! ### What is read -/

section

omit [Field α] [LinearOrder α] [Numeral α]

theorem model_ok {m : Stage α} (h : P.model (t : ℤ) (k : ℤ) = .ok m) : P.stageAt t k = some m := by
  obtain ⟨ms, hms, hm⟩ := ok_of_bind h
  rw [entryFrom_natCast] at hms hm
  exact stageAt_eq_some.mpr ⟨ms, entryAt_ok hms, entryAt_ok hm⟩

theorem transition_ok {row : List α} (h : P.transition (t : ℤ) (j : ℤ) = .ok row) :
    row = P.moves t j := by
  obtain ⟨rows, hrows, hrow⟩ := ok_of_bind h
  rw [entryFrom_natCast] at hrows hrow
  simp [moves, entryAt_ok hrows, entryAt_ok hrow]

end

theorem Trained.reachableStates_eq (h : p.Trained F P) (t : ℕ) :
    P.reachableStates t = p.reachableStates t := by
  rw [h.frame]
  rfl

theorem Trained.atRest (h : p.Trained F P) {base m : Stage α} (ht : t < p.horizon)
    (hk : k ∈ p.reachableStates t)
    (hbase : p.stageAt t k = some base) (hm : P.stageAt t k = some m) :
    (p.junction F t k base).AtRest Junction.AnyLink m := by
  obtain ⟨m', hm', hrest⟩ := h.models t k base ht hk hbase
  obtain rfl := Option.some.inj (hm.symm.trans hm')
  exact hrest

omit [Numeral α] in
theorem outcomeProbabilities_ok {weights : List α} {w : ℕ → List α}
    (hw : ∀ k ∈ P.reachableStates t,
      ∀ m, P.stageAt t k = some m → m.probabilities.map (P.transitionAt t j k * ·) = w k)
    (h : P.outcomeProbabilities t j = .ok weights) : weights = (P.reachableStates t).flatMap w := by
  obtain ⟨row, hrow, h⟩ := ok_of_bind h
  obtain ⟨parts, hparts, h⟩ := ok_of_bind h
  obtain rfl := Except.ok.inj h
  refine flatten_eq_flatMap ((forall₂_of_mapM hparts).imp ?_)
  rintro k part ⟨hk, hpart⟩
  obtain ⟨x, hx, hpart⟩ := ok_of_bind hpart
  obtain ⟨m, hm, hpart⟩ := ok_of_bind hpart
  obtain rfl := Except.ok.inj hpart
  have hmove : x = P.transitionAt t j k := by
    rw [transition_ok hrow] at hx
    change x = (P.moves t j).getD k 0
    simp [entryAt_ok hx]
  rw [hmove]
  exact hw k hk m (model_ok hm)

theorem Trained.outcomeProbabilities_eq (h : p.Trained F P) (hp : p.WellFormed) (hs : p.Stochastic)
    (ht : t < p.horizon) {weights : List α} (hw : P.outcomeProbabilities t j = .ok weights) :
    weights = (p.places t).map (p.placeWeight t j) := by
  rw [places, List.map_flatMap, ← h.reachableStates_eq]
  refine outcomeProbabilities_ok (fun k hk m hm => ?_) hw
  rw [h.reachableStates_eq] at hk
  obtain ⟨base, hbase⟩ := hp.reachable t ht k hk
  have hprobabilities : m.probabilities = base.probabilities := by
    rw [(h.atRest ht hk hbase hm).frame]
    rfl
  have hmove : P.transitionAt t j k = p.transitionAt t j k := by
    rw [h.frame]
    rfl
  rw [hprobabilities, hmove]
  exact (map_placeWeight hbase (hs.samples t k base hk hbase).2).symm

/-! ### Steps -/

/-- Whether what was found at a Markov state of stage `t`, at a trial point, supports its
outcomes. -/
def GatheredAt (p : Multistage α) (F : Prospect α) (t : ℕ) (state : List α)
    (noise : Option (List α)) (k : ℕ) (o : Outcomes α) :
    Prop :=
  ∃ results, List.Forall₂ (p.SupportsAt F t state noise) (p.placesOf t k) results ∧
    o = { values := results.map (·.1), gradients := results.map (·.2) }

variable [IsStrictOrderedRing α] {state : List α} {noise : Option (List α)}

/-- What is found at one model supports its outcomes. -/
theorem outcomes_triple (hp : p.WellFormed) (hlp : lp.Exact) (state : List α)
    (noise : Option (List α)) :
    Triple (p.Trained F) (outcomes lp t k state noise)
      (fun o P => p.Trained F P ∧ (t < p.horizon → k ∈ p.reachableStates t →
        p.GatheredAt F t state noise k o))
      (p.Trained F) := by
  refine Trained.onModel_triple hp fun base ht hk hbase => ?_
  refine (Junction.outcomes_triple (hp.sound hk hbase) hlp state noise).conseq (fun _ hm => hm) ?_
    fun _ hm => hm
  rintro o m ⟨hm, hlen, results, hresults, rfl⟩
  refine ⟨hm, results, ?_, rfl⟩
  rw [placesOf, hbase, List.forall₂_map_left_iff]
  exact hresults.imp fun s result hsup => ⟨base, hbase, hlen, hsup⟩

omit [Field α] [LinearOrder α] [Numeral α] [IsStrictOrderedRing α] in
theorem gather_of_found {R : ℕ × ℕ → α × List α → Prop} {placesOf : ℕ → List (ℕ × ℕ)} {ks : List ℕ}
    {found : List (Outcomes α)}
    (h : List.Forall₂ (fun k o => ∃ results, List.Forall₂ R (placesOf k) results ∧
      o = { values := results.map (·.1), gradients := results.map (·.2) }) ks found) :
    ∃ results, List.Forall₂ R (ks.flatMap placesOf) results ∧
      gather found = { values := results.map (·.1), gradients := results.map (·.2) } := by
  induction h with
  | nil => exact ⟨[], .nil, rfl⟩
  | cons hk _ ih =>
    obtain ⟨results, hresults, rfl⟩ := hk
    obtain ⟨more, hmore, heq⟩ := ih
    obtain ⟨hvalues, hgradients⟩ := Outcomes.mk.inj heq
    refine ⟨results ++ more, List.rel_append hresults hmore, ?_⟩
    simp only [gather, List.flatMap_cons, List.map_append, hvalues, hgradients]

omit [IsStrictOrderedRing α] in
/-- What is found at all models of a stage supports all its outcomes. -/
theorem gathered_of_found {found : List (Outcomes α)}
    (h : List.Forall₂ (p.GatheredAt F t state noise) (p.reachableStates t) found) :
    p.Gathered F t state noise (gather found) := gather_of_found h

theorem refineAt_keeps (hp : p.Checked) (hs : p.Stochastic) (hF : p.Realistic F)
    (ht : t + 1 < p.horizon)
    (hj : j ∈ p.reachableStates t) {found : Outcomes α}
    (hfound : p.Gathered F (t + 1) state noise found) :
    Keeps (p.Trained F) (refineAt (t + 1) j found state noise) := by
  refine Triple.get_bind fun P hP => ?_
  have hrest : ∀ s, s = P → p.Trained F s := by
    rintro _ rfl
    exact hP
  refine Triple.bind (Q := fun total s => s = P ∧ P.judge (t + 1) j found = .ok total)
    (Triple.ofExcept (fun s total hs h => ⟨hs, h⟩) hrest) fun total =>
    Triple.of_and fun htotal => ?_
  refine Triple.bind (Q := fun m s => s = P ∧ P.model (t + 1 - 1 : ℕ) j = .ok m)
    (Triple.ofExcept (fun s m hs h => ⟨hs, h⟩) hrest) fun m => Triple.of_and fun hm => ?_
  rw [Nat.add_sub_cancel] at hm ⊢
  obtain ⟨base, hbase⟩ := hp.wellFormed.reachable t (by omega) j hj
  have hjoined := hP.atRest (by omega) hj hbase (model_ok hm)
  rcases hctg : m.costToGo with _ | ctg
  · exact Triple.throw hrest
  · refine Triple.bind (Q := fun c s => s = P ∧
      m.buildCut ctg total.value (total.gradient.getD []) state noise (t : ℤ) (j : ℤ) = .ok c)
      (Triple.ofExcept (fun s c hs h => ⟨hs, h⟩) hrest) fun c => Triple.of_and fun hcut => ?_
    have hvalid : p.ValidFor F t j c ∧ (p.isLagged (t + 1) = false → c.noiseSlopes = []) := by
      obtain ⟨weights, hweights, htotal⟩ := ok_of_bind htotal
      obtain ⟨choice, hchoice, htotal⟩ := ok_of_bind htotal
      obtain ⟨measure, hmeasure, htotal⟩ := ok_of_bind htotal
      obtain rfl := hP.outcomeProbabilities_eq hp.wellFormed hs ht hweights
      have hmeasures : P.measures = p.measures := by rw [hP.frame]
      have hsense : P.sense = p.sense := by rw [hP.frame]
      rw [hmeasures] at hchoice
      rw [hsense] at htotal
      have hstates : m.states = base.states := by
        rw [hjoined.frame]
        rfl
      exact valid_of_gathered hp hs hF ht hj hbase hfound
        (entryAt_ok hchoice) hmeasure htotal hstates
        (hjoined.cuts ctg hctg).1 hcut
    refine Triple.bind (Q := fun _ => p.Trained F) ?_ fun _ => Triple.pure fun _ hP => hP
    refine (Trained.onModel_triple (Q := fun _ => True) hp.wellFormed
      fun base' _ _ hbase' => ?_).conseq
      (fun s hs => hrest s hs) (fun _ _ hP => hP.1) fun _ hP => hP
    exact (Junction.addCut_triple fun _ => hvalid).and_pure trivial

theorem refineStage_keeps (hp : p.Checked) (hs : p.Stochastic) (hF : p.Realistic F) (hlp : lp.Exact)
    (ht : t + 1 < p.horizon) (state : List α) (noise : Option (List α)) :
    Keeps (p.Trained F) (refineStage lp (t + 1) state noise) := by
  refine Triple.get_bind fun P hP => ?_
  rw [hP.reachableStates_eq]
  have hmapM : Triple (p.Trained F)
      ((p.reachableStates (t + 1)).mapM fun k => outcomes lp (t + 1) k state noise)
      (fun found P => p.Trained F P ∧
        List.Forall₂ (p.GatheredAt F (t + 1) state noise) (p.reachableStates (t + 1)) found)
        (p.Trained F) :=
    Triple.mapM fun k hk => (outcomes_triple hp.wellFormed hlp state noise).conseq (fun _ hP => hP)
      (fun _ _ h => ⟨h.1, h.2 ht hk⟩) fun _ hP => hP
  refine Triple.bind (fun s h => hmapM s (h ▸ hP)) fun found => ?_
  refine Triple.of_and fun hfound => ?_
  rw [Nat.add_sub_cancel, hP.reachableStates_eq]
  exact Triple.forM fun j hj => refineAt_keeps hp hs hF ht hj (gathered_of_found hfound)

theorem refineFrom_keeps (hp : p.Checked) (hs : p.Stochastic) (hF : p.Realistic F) (hlp : lp.Exact)
    (states : List (List α)) (noises : List (Option (List α))) {n : ℕ} (hn : n < p.horizon) :
    Keeps (p.Trained F) (refineFrom lp states noises n) := by
  induction n with
  | zero => exact Keeps.pure
  | succ t ih =>
    refine Keeps.bind .ofExcept fun state => ?_
    refine Keeps.bind .ofExcept fun noise => ?_
    exact (refineStage_keeps hp hs hF hlp hn state noise).bind fun _ => ih (by omega)

theorem refineAlong_keeps (hp : p.Checked) (hs : p.Stochastic) (hF : p.Realistic F) (hlp : lp.Exact)
    (x : Trajectory α) : Keeps (p.Trained F) (refineAlong lp x) := by
  refine Triple.get_bind fun P hP => ?_
  have hhorizon : P.horizon = p.horizon := by rw [hP.frame]
  rw [hhorizon]
  have := hp.wellFormed.start.1
  exact fun s hs' => refineFrom_keeps hp hs hF hlp _ _ (by omega) s (hs' ▸ hP)

/-- What the first stage is worth, under any valid cuts, is no worse than any decision. -/
theorem boundFor_of_solved (hp : p.Checked) (hF : p.Realistic F) (hlp : lp.Exact) {base m : Stage α}
    (hbase : p.stageAt 0 0 = some base)
    (hm : (p.junction F 0 0 base).Joined ((p.junction F 0 0 base).InScenario 0)
      Junction.AnyLink m) {x : Solution α}
        (hx : Junction.Solved lp m x) : p.BoundFor F x.value := by
  intro base' hbase' w hw
  obtain rfl := Option.some.inj (hbase.symm.trans hbase')
  obtain ⟨y, q, hy, hstart, hq, rfl⟩ := hw
  have hreach := hp.wellFormed.start.2
  have hids : (p.junction F 0 0 base).ids = [] := by
    rw [junction, Junction.of_ids]
    rfl
  have hnolinks : (p.junction F 0 0 base).Joined ((p.junction F 0 0 base).InScenario 0)
      (fun i v => ([] : List α)[i]? = some v) m :=
    hm.mono (fun _ _ _ hv => hv) fun i id hi => by simp [hids] at hi
  have hle := hnolinks.support (hp.wellFormed.sound hreach hbase) hlp hx (by simp [hids])
    (decides hp.wellFormed hF hreach hbase hy (fun _ => hstart) hq)
  change base.sense.orient _ ≤ base.sense.orient (base.program.objective y + _) at hle
  rw [(hp.wellFormed.models 0 0 base hreach hbase).2, objective_eq hp hF hq, hids] at hle
  simpa using hle

/-- The bound of a problem is no worse than any decision. -/
theorem computeBound_triple (hp : p.Checked) (hF : p.Realistic F) (hlp : lp.Exact) :
    Triple (p.Trained F) (computeBound lp) (fun b P => p.Trained F P ∧ p.BoundFor F b)
      (p.Trained F) := by
  refine (Trained.onModel_triple (Q := p.BoundFor F) hp.wellFormed fun base _ hk hbase => ?_).conseq
    (fun _ hP => hP)
    (fun _ _ h => ⟨h.1, h.2 hp.wellFormed.start.1 hp.wellFormed.start.2⟩) fun _ hP => hP
  refine Triple.bind (Junction.enterScenario_triple (hp.wellFormed.sound hk hbase) (.int 0))
    fun _ => ?_
  refine Triple.bind ((Junction.solve_triple lp _ _).conseq (fun _ hm => hm.2 0 rfl)
    (fun _ _ hm => hm)
    fun _ hm => hm.atRest_of_scenario) fun x => Triple.pure fun m hm => ?_
  exact ⟨hm.1.atRest_of_scenario, boundFor_of_solved hp hF hlp hbase hm.1 hm.2⟩

omit [IsStrictOrderedRing α] in
theorem visit_keeps (hp : p.WellFormed) (lp : Solver α) (t : ℕ) (k s : Datum α)
    (previous : Option (Visit α)) :
    Keeps (p.Trained F) (visit lp t k s previous) := by
  refine Triple.get_bind fun P hP => ?_
  have hrest : ∀ s, s = P → p.Trained F s := by
    rintro _ rfl
    exact hP
  refine Triple.bind (Q := fun _ => p.Trained F)
    (Triple.ofExcept (fun s _ hs _ => hrest s hs) hrest) fun k' => ?_
  refine Triple.get_bind fun P' hP' => ?_
  have hrest' : ∀ s, s = P' → p.Trained F s := by
    rintro _ rfl
    exact hP'
  refine Triple.bind (Q := fun _ => p.Trained F)
    (Triple.ofExcept (fun s _ hs _ => hrest' s hs) hrest') fun place => ?_
  refine (Trained.onModel_triple (Q := fun _ => True) hp fun base _ hk hbase => ?_).conseq
    (fun _ hP => hP)
    (fun _ _ h => h.1) fun _ hP => hP
  have hj : (p.junction F place.1 place.2 base).Sound := hp.sound hk hbase
  have hsolved {f : Stage α → Solution α → Visit α} :
      Triple ((p.junction F place.1 place.2 base).AtRest Junction.AnyLink)
      (do Stage.enterScenario s; let x ← Stage.solve lp "forward" s; let m ← get; pure (f m x))
      (fun _ m => (p.junction F place.1 place.2 base).AtRest Junction.AnyLink m ∧ True)
      ((p.junction F place.1 place.2 base).AtRest Junction.AnyLink) := by
    refine Triple.bind ((Junction.enterScenario_triple hj s).conseq (fun _ hm => hm)
      (fun _ _ hm => hm.1)
      fun _ hm => hm) fun _ => ?_
    refine Triple.bind (Junction.solve_triple lp _ _) fun x => ?_
    exact Triple.get_bind fun m hm => Triple.pure fun m' hm' => ⟨hm' ▸ hm.1, trivial⟩
  cases previous with
  | none => exact hsolved
  | some v =>
    refine Triple.bind (Q := fun _ => (p.junction F place.1 place.2 base).AtRest Junction.AnyLink)
      ?_ fun _ => hsolved
    exact (Junction.enterIncoming_triple hj v.state _).conseq (fun _ hm => hm)
      (fun _ _ hm => hm.1.anyLink)
      fun _ hm => hm

end Recourse.Multistage
