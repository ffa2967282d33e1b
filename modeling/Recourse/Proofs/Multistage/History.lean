import Recourse.Proofs.Multistage.Trained
import Recourse.Proofs.Stage.Request
import Recourse.Proofs.Twins

/-! What a problem remembers of the work that was done on it: its cuts and its bound, and nothing
else that a later solve could see. Whatever was walked, refined and bounded before, and however that
ended, a model hands over the program that belongs to the present call and to the cuts that are
stored. -/

namespace Recourse

open Run (Alike Coupled Keeps Triple)

variable {γ α β δ : Type}

namespace Multistage

variable {P₀ P P' : Multistage α} {t k : ℕ} {m M : Stage α}

/-! ### Skeletons -/

theorem stageAt_mapModels (f : Stage α → Stage α) (p : Multistage α) (t k : ℕ) :
    (p.mapModels f).stageAt t k = (p.stageAt t k).map f := by
  unfold stageAt mapModels
  rw [List.getElem?_map]
  cases p.models[t]? with
  | none => rfl
  | some ms => exact List.getElem?_map

theorem stageAt_skeleton (P : Multistage α) (t k : ℕ) :
    P.skeleton.stageAt t k = (P.stageAt t k).map Stage.bare :=
  P.stageAt_mapModels Stage.bare t k

theorem map_set_of_eq {f : β → δ} {xs : List β} {i : ℕ} {x y : β} (hx : xs[i]? = some x)
    (h : f y = f x) :
    (xs.set i y).map f = xs.map f := by
  obtain ⟨hi, rfl⟩ := List.getElem?_eq_some_iff.mp hx
  have hmap : i < (xs.map f).length := by simpa using hi
  have hself : (xs.map f).set i (xs.map f)[i] = xs.map f := List.set_getElem_self hmap
  rw [List.getElem_map] at hself
  rw [List.map_set, h, hself]

theorem lengths_put (hM : P.stageAt t k = some M) (M' : Stage α) :
    (P.put t k M').models.map List.length = P.models.map List.length := by
  obtain ⟨ms, hms, -⟩ := stageAt_eq_some.mp hM
  have hgetD : P.models.getD t [] = ms := by simp [hms]
  rw [put, hgetD]
  exact map_set_of_eq hms (List.length_set ..)

theorem skeleton_put (hM : P.stageAt t k = some M) {M' : Stage α} (h : M'.bare = M.bare) :
    (P.put t k M').skeleton = P.skeleton := by
  obtain ⟨ms, hms, hM⟩ := stageAt_eq_some.mp hM
  have hgetD : P.models.getD t [] = ms := by simp [hms]
  have hmodels := map_set_of_eq (f := List.map Stage.bare) hms (map_set_of_eq hM h)
  rw [put, hgetD, skeleton, skeleton, hmodels]

theorem locate_skeleton (P : Multistage α) (t k : ℤ) : P.skeleton.locate t k = P.locate t k :=
  P.locate_mapModels Stage.bare t k

variable [Scalar α]

theorem judge_skeleton (P : Multistage α) (t j : ℕ) (found : Outcomes α) :
    P.skeleton.judge t j found = P.judge t j found :=
  P.judge_mapModels Stage.leavesScenarios_bare t j found

/-! ### What is kept -/

variable [Numeral α]

/-- A problem on which no work was done yet. Nothing comes into the first stage. -/
structure Settled (P₀ : Multistage α) : Prop where
  models : ∀ t k m, P₀.stageAt t k = some m → m.Settled
  first : ∀ k m, P₀.stageAt 0 k = some m → m.linkRows = []

/-- A problem that has become of `P₀` by work on its models. -/
structure Kept (P₀ P : Multistage α) : Prop where
  frame : { P.skeleton with lastBound := none, provenance := none } =
    { P₀.skeleton with lastBound := none, provenance := none }
  models : ∀ t k m M, P₀.stageAt t k = some m → P.stageAt t k = some M → m.Kept M

def poolAt (P : Multistage α) (t k : ℕ) : Option (Pool α) := (P.stageAt t k).bind Stage.pool?

theorem Settled.kept (h : P₀.Settled) : P₀.Kept P₀ :=
  ⟨rfl, fun t k m _ hm hM => Option.some.inj (hm.symm.trans hM) ▸ (h.models t k m hm).kept⟩

theorem Kept.stageAt_bare (h : P₀.Kept P) (t k : ℕ) :
    (P.stageAt t k).map Stage.bare = (P₀.stageAt t k).map Stage.bare := by
  rw [← stageAt_skeleton, ← stageAt_skeleton]
  exact (congrArg (fun P : Multistage α => P.stageAt t k) h.frame :)

theorem Kept.stageAt_none (h : P₀.Kept P) (hm : P₀.stageAt t k = none) : P.stageAt t k = none := by
  have hbare := h.stageAt_bare t k
  rw [hm] at hbare
  exact Option.map_eq_none_iff.mp hbare

theorem Kept.stageAt_some (h : P₀.Kept P) (hm : P₀.stageAt t k = some m) :
    ∃ M, P.stageAt t k = some M ∧ m.Kept M := by
  have hbare := h.stageAt_bare t k
  rw [hm] at hbare
  obtain ⟨M, hM, -⟩ := Option.map_eq_some_iff.mp hbare
  exact ⟨M, hM, h.models t k m M hm hM⟩

theorem Kept.put (h : P₀.Kept P) (hm : P₀.stageAt t k = some m) (hM : P.stageAt t k = some M)
    {M' : Stage α} (hM' : m.Kept M') : P₀.Kept (P.put t k M') where
  frame := by
    rw [skeleton_put hM (hM'.frame.trans (h.models t k m M hm hM).frame.symm)]
    exact h.frame
  models := fun t' k' m' N hm' hN => by
    rcases stageAt_put_cases hM hN with ⟨rfl, rfl, rfl⟩ | hN
    · obtain rfl := Option.some.inj (hm.symm.trans hm')
      exact hM'
    · exact h.models t' k' m' N hm' hN

omit [Scalar α] [Numeral α] in
theorem poolAt_put (hM : P.stageAt t k = some M) (M' : Stage α) (t' k' : ℕ) :
    (P.put t k M').poolAt t' k' = if t' = t ∧ k' = k then M'.pool? else P.poolAt t' k' := by
  split_ifs with hsame
  · obtain ⟨rfl, rfl⟩ := hsame
    rw [poolAt, stageAt_put_self hM]
    rfl
  · rw [poolAt, stageAt_put_of_ne fun ht hk => hsame ⟨ht, hk⟩]
    rfl

/-- Two problems that have become of `P₀`, and that differ at most in what a solve overwrites. -/
structure SameCuts (P₀ P P' : Multistage α) : Prop where
  left : P₀.Kept P
  right : P₀.Kept P'
  pool : ∀ t k, P.poolAt t k = P'.poolAt t k
  skeleton : P.skeleton = P'.skeleton

theorem Kept.sameCuts (h : P₀.Kept P) : P₀.SameCuts P P := ⟨h, h, fun _ _ => rfl, rfl⟩

theorem SameCuts.bound (h : P₀.SameCuts P P') : P.lastBound = P'.lastBound :=
  (congrArg lastBound h.skeleton :)

variable {act : Stage.Edit α β} {act' : Stage.Edit α δ}

theorem onModel_keeps (h : ∀ m, P₀.stageAt t k = some m → Keeps m.Kept act) :
    Keeps P₀.Kept (onModel t k act) := by
  refine Keeps.iff_on.mpr fun P hP => ?_
  rcases hm : P₀.stageAt t k with _ | m
  · rw [onModel_on_none (hP.stageAt_none hm)]
    exact hP
  · obtain ⟨M, hM, hkept⟩ := hP.stageAt_some hm
    rw [onModel_on_some hM]
    exact hP.put hm hM (Keeps.iff_on.mp (h m hm) M hkept)

theorem onModel_keepsCuts
    (h : ∀ m, P₀.stageAt t k = some m → ∀ pool, Keeps (fun M => m.Kept M ∧ M.pool? = pool) act) :
    Keeps (P₀.SameCuts · P') (onModel t k act) := by
  refine Keeps.iff_on.mpr fun P hP => ?_
  rcases hm : P₀.stageAt t k with _ | m
  · rw [onModel_on_none (hP.left.stageAt_none hm)]
    exact hP
  · obtain ⟨M, hM, hkept⟩ := hP.left.stageAt_some hm
    rw [onModel_on_some hM]
    obtain ⟨hkept', hpool⟩ := Keeps.iff_on.mp (h m hm M.pool?) M ⟨hkept, rfl⟩
    refine ⟨hP.left.put hm hM hkept', hP.right,
      fun t' k' => ?_, (skeleton_put hM ?_).trans hP.skeleton⟩
    · rw [poolAt_put hM, ← hP.pool t' k']
      split_ifs with hsame
      · obtain ⟨rfl, rfl⟩ := hsame
        rw [poolAt, hM, hpool]
        rfl
      · rfl
    · exact hkept'.frame.trans hkept.frame.symm

theorem onModel_coupled {A : β → δ → Prop}
    (h : ∀ m, P₀.stageAt t k = some m → Coupled (Stage.Twin m.Kept) act act' A) :
    Coupled P₀.SameCuts (onModel t k act) (onModel t k act') A := by
  intro P P' hP
  rcases hm : P₀.stageAt t k with _ | m
  · rw [onModel_on_none (hP.left.stageAt_none hm), onModel_on_none (hP.right.stageAt_none hm)]
    exact ⟨.error _, hP⟩
  · obtain ⟨M, hM, hkept⟩ := hP.left.stageAt_some hm
    obtain ⟨M', hM', hkept'⟩ := hP.right.stageAt_some hm
    rw [onModel_on_some hM, onModel_on_some hM']
    have hpool : M.pool? = M'.pool? := by simpa [poolAt, hM, hM'] using hP.pool t k
    obtain ⟨hA, hleft, hright, hpool⟩ := h m hm M M' ⟨hkept, hkept', hpool⟩
    refine ⟨hA, hP.left.put hm hM hleft, hP.right.put hm hM' hright, fun t' k' => ?_, ?_⟩
    · rw [poolAt_put hM, poolAt_put hM', hP.pool t' k', hpool]
    · rw [skeleton_put hM (hleft.frame.trans hkept.frame.symm),
        skeleton_put hM' (hright.frame.trans hkept'.frame.symm),
        hP.skeleton]

/-! ### Visits -/

end Multistage

namespace Stage

variable [Scalar α] [Numeral α] {m M : Stage α} {arrival : Arrival α} {lp : Solver α}
  {ctg : CostToGo α} {pool : Pool α}
  {base rows : List (Row α)}

def follow (lp : Solver α) (discount : α) (t : ℕ) (k s : Datum α) (arrival : Arrival α) :
    Edit α (Visit α) := do
  enterArrival arrival
  enterScenario s
  let x ← solve lp "forward" s
  let m ← get
  let (state, noise) := m.outgoing x
  return { markovState := k, sample := s, state, noise, cost := m.ownCost discount t x }

theorem follow_eq (lp : Solver α) (discount : α) (t : ℕ) (k s : Datum α) (arrival : Arrival α) :
    follow lp discount t k s arrival = do
      enterArrival arrival
      let x ← solveFor s s "forward" lp
      let m ← get
      let (state, noise) := m.outgoing x
      return { markovState := k, sample := s, state, noise, cost := m.ownCost discount t x } := by
  unfold follow solveFor
  simp only [bind_assoc]

theorem follow_keeps (hm : m.Settled) (harrival : arrival = none → m.linkRows = []) (lp : Solver α)
    (discount : α) (t : ℕ) (k s : Datum α) (pool : Option (Pool α)) :
    Keeps (fun M => m.Kept M ∧ M.pool? = pool) (follow lp discount t k s arrival) := by
  rw [follow_eq]
  refine enterArrival_keeps hm harrival ((solveFor_keeps hm s s "forward" lp pool).bind fun x => ?_)
  exact .get_bind fun M => .pure

theorem follow_coupled (hm : m.Settled) (harrival : arrival = none → m.linkRows = [])
    (hlp : lp.Blind) (discount : α) (t : ℕ) (k s : Datum α) :
    Coupled (Twin m.Kept) (follow lp discount t k s arrival)
      (follow lp discount t k s arrival) Eq := by
  rw [follow_eq]
  refine enterArrival_coupled hm harrival
    ((solveFor_coupled hm hlp s s "forward").bind fun x x' hx => ?_)
  refine Coupled.get_bind fun M N h => .pure ?_
  have hframe (M : Stage α) (hM : m.Entered arrival M) (x : Solution α) :
      M.outgoing x = m.outgoing x ∧ M.ownCost discount t x = m.ownCost discount t x := by
    obtain ⟨as, bs, rows, -, -, hM⟩ := hM
    exact ⟨(congrArg (fun M => Stage.outgoing M x) hM.frame :),
      (congrArg (fun M => Stage.ownCost M discount t x) hM.frame :)⟩
  have hsolved : m.outgoing x = m.outgoing x' ∧
      m.ownCost discount t x = m.ownCost discount t x' := by
    have hvalueAt : x.valueAt = x'.valueAt := by
      funext column
      rw [Solution.valueAt, Solution.valueAt, hx.point]
    rw [outgoing, outgoing, ownCost, ownCost, hvalueAt, hx.value]
    exact ⟨rfl, rfl⟩
  have houtgoing : M.outgoing x = N.outgoing x' := by
    rw [(hframe M h.left x).1, (hframe N h.right x').1, hsolved.1]
  have hcost : M.ownCost discount t x = N.ownCost discount t x' := by
    rw [(hframe M h.left x).2, (hframe N h.right x').2, hsolved.2]
  exact congrArg₂ (fun out cost => Visit.mk k s out.1 out.2 cost) houtgoing hcost

theorem follow_asks (hm : m.Settled) (harrival : arrival = none → m.linkRows = []) {M : Stage α}
    (hM : m.Kept M) (discount : α) (t : ℕ) (k s : Datum α) :
    ∃ Q, Q.anonymous = (m.request arrival s M.cuts).anonymous ∧
      Run.Asks (fun lp => follow lp discount t k s arrival) M Q := by
  simp only [follow_eq]
  obtain ⟨M', hrun, hpool, -, hok⟩ := hM.enterArrival hm harrival
  rcases hr : ((enterArrival arrival).on m).1 with e | _
  · rw [hr] at hrun
    exact ⟨_, rfl, fun lp lp' _ => by rw [Run.bind_error _ hrun, Run.bind_error _ hrun]⟩
  · rw [hr] at hrun
    obtain ⟨Q, hQ, hasks⟩ := solveFor_asks (hok hr) hm s s "forward"
    have hcuts : M'.cuts = M.cuts := by rw [cuts, cuts, hpool]
    refine ⟨Q, hcuts ▸ hQ, fun lp lp' hlp => ?_⟩
    rw [Run.bind_ok _ hrun, Run.bind_ok _ hrun]
    exact hasks.bind _ lp lp' hlp

def estimate (lp : Solver α) : Edit α α := do
  enterScenario (.int 0)
  let x ← solve lp "bound" .null
  return x.value

theorem estimate_eq (lp : Solver α) : estimate lp = do
    let x ← solveFor (.int 0) .null "bound" lp
    return x.value := (bind_assoc _ _ _).symm

theorem outcomes_keeps (hm : m.Settled) (lp : Solver α) (state : List α) (noise : Option (List α))
    (pool : Option (Pool α)) :
    Keeps (fun M => m.Kept M ∧ M.pool? = pool)
      (do enterIncoming state noise; solveScenarios lp) := by
  have harrival : (some (state, noise) : Arrival α) = none → m.linkRows = [] := nofun
  refine enterArrival_keeps hm harrival ?_
  refine .get_bind fun M => Keeps.bind ?_ fun results => .pure
  exact Keeps.of_triple (Triple.mapM (S := fun _ _ => True)
    fun k _ => (solveScenario_keeps hm k lp pool).and_pure trivial)

theorem outcomes_coupled (hm : m.Settled) (hlp : lp.Blind) (state : List α)
    (noise : Option (List α)) :
    Coupled (Twin m.Kept) (do enterIncoming state noise; solveScenarios lp)
      (do enterIncoming state noise; solveScenarios lp) Eq := by
  have harrival : (some (state, noise) : Arrival α) = none → m.linkRows = [] := nofun
  refine enterArrival_coupled hm harrival ?_
  refine Coupled.get_bind fun M N h => ?_
  have hcount (M : Stage α) (hM : m.Entered (some (state, noise)) M) :
      M.sampleCount = m.sampleCount := by
    obtain ⟨as, bs, rows, -, -, hM⟩ := hM
    exact (congrArg sampleCount hM.frame :)
  rw [hcount M h.left, hcount N h.right]
  exact (Coupled.mapM fun k _ => solveScenario_coupled hm hlp k).bind_same fun results => .pure rfl

/-! ### Pools -/

theorem bears_withPool (h : m.Bears base rows M) (hctg : M.costToGo = some ctg)
    (hpool : ctg.pool.Grows pool) :
    m.Bears base rows { M with costToGo := some { ctg with pool } } where
  frame := by
    have hctg' : ({ ctg with pool } : CostToGo α).bare = ctg.bare := by
      rw [CostToGo.bare, CostToGo.bare, hpool.bare]
    rw [← h.frame, bare, bare, hctg, Option.map_some, Option.map_some, hctg']
  issued := h.issued
  rows := h.rows
  none := fun h => nomatch h
  some := fun ctg' h' => by
    obtain rfl := Option.some.inj h'
    exact (h.some ctg hctg).withPool hpool

omit [Scalar α] [Numeral α] in
theorem onPool_on_some {act : Run α (Pool α) β} (hctg : M.costToGo = some ctg) : (onPool act).on M =
    ((act.on ctg.pool).1,
      { M with costToGo := some { ctg with pool := (act.on ctg.pool).2 } }) := by
  simp only [Run.on, onPool, hctg]
  rfl

omit [Scalar α] [Numeral α] in
theorem onPool_on_none {act : Run α (Pool α) β} (hctg : M.costToGo = none) :
    (onPool act).on M = (.error .missingPart, M) := by
  simp [Run.on, onPool, hctg]

theorem onPool_keeps {act : Run α (Pool α) β} (hact : ∀ pool : Pool α, pool.Grows (act.on pool).2) :
    Keeps m.Kept (onPool act) := by
  refine Keeps.iff_on.mpr fun M hM => ?_
  rcases hctg : M.costToGo with _ | ctg
  · rwa [onPool_on_none hctg]
  · obtain ⟨as, rows, has, hM⟩ := hM
    rw [onPool_on_some hctg]
    exact ⟨as, rows, has, bears_withPool hM hctg (hact ctg.pool)⟩

theorem onPool_coupled {act : Run α (Pool α) β}
    (hact : ∀ pool : Pool α, pool.Grows (act.on pool).2) :
    Coupled (Twin m.Kept) (onPool act) (onPool act) Eq := by
  intro M N h
  have hleft := Keeps.iff_on.mp (onPool_keeps hact) M h.left
  have hright := Keeps.iff_on.mp (onPool_keeps hact) N h.right
  have hpool := h.pool
  rcases hctg : M.costToGo with _ | ctg <;> rcases hctg' : N.costToGo with _ | ctg' <;>
    rw [pool?, pool?, hctg, hctg'] at hpool
  · rw [onPool_on_none hctg, onPool_on_none hctg']
    exact ⟨.error _, h⟩
  · cases hpool
  · cases hpool
  · have hpool : ctg.pool = ctg'.pool := Option.some.inj hpool
    rw [onPool_on_some hctg] at hleft ⊢
    rw [onPool_on_some hctg'] at hright ⊢
    rw [hpool] at hleft ⊢
    exact ⟨.refl (fun _ => rfl) _, hleft, hright, rfl⟩

def newCut (m : Stage α) (total : Aggregate α) (state : List α) (noise : Option (List α))
    (t k : ℤ) :
    Except (Fault α) (Cut α) :=
  match m.costToGo with
  | none => .error .missingPart
  | some ctg => m.buildCut ctg total.value (total.gradient.getD []) state noise t k

omit [Numeral α] in
theorem newCut_bare (m : Stage α) : m.bare.newCut = m.newCut := by
  funext total state noise t k
  unfold newCut bare
  cases m.costToGo <;> rfl

end Stage

namespace Multistage

variable [Scalar α] [Numeral α] {P₀ P P' : Multistage α} {t k : ℕ} {m M : Stage α} {lp : Solver α}

/-! ### Elementary operations -/

theorem Kept.same (h : P₀.Kept P) (f : Multistage α → β)
    (hf : ∀ P b x, f { P.skeleton with lastBound := b, provenance := x } = f P) : f P = f P₀ := by
  rw [← hf P none none, h.frame, hf]

theorem Kept.discount_eq (h : P₀.Kept P) : P.discount = P₀.discount :=
  h.same discount fun _ _ _ => rfl

theorem Kept.locate_eq (h : P₀.Kept P) (t k : ℤ) : P.locate t k = P₀.locate t k :=
  h.same (locate · t k) fun P _ _ => P.locate_skeleton t k

def arrival (previous : Option (Visit α)) : Arrival α :=
  previous.map fun v => (v.state, some v.noise)

theorem visit_eq (lp : Solver α) (t : ℕ) (k s : Datum α) (previous : Option (Visit α)) :
    visit lp t k s previous = (do
    let P ← get
    let i ← Run.ofExcept k.asWhole
    let place ← Run.ofExcept ((← get).locate t i)
    onModel place.1 place.2 (Stage.follow lp P.discount t k s (arrival previous))) := by
  cases previous <;> rfl

theorem visit_keeps_of {I : Multistage α → Prop} {lp : Solver α} {t : ℕ} {k s : Datum α}
    {previous : Option (Visit α)}
    (h : ∀ t' k' discount,
      Keeps I (onModel t' k' (Stage.follow lp discount t k s (arrival previous)))) :
    Keeps I (visit lp t k s previous) := by
  rw [visit_eq]
  exact .get_bind fun P =>
    .bind .ofExcept fun i => .get_bind fun P => .bind .ofExcept fun place => h _ _ _

omit [Scalar α] [Numeral α] in
theorem locate_fst {i : ℤ} {place : ℕ × ℕ} (h : P.locate t i = .ok place) : place.1 = t := by
  unfold locate at h
  rw [resolve_natCast] at h
  split_ifs at h
  · dsimp only at h
    split at h
    · cases h
    · cases h
      rfl

omit [Scalar α] [Numeral α] in
theorem Settled.arrival_none (hP₀ : P₀.Settled) {previous : Option (Visit α)}
    (hprevious : previous = none → t = 0) {i : ℤ} {place : ℕ × ℕ}
    (hplace : P₀.locate t i = .ok place) (hm : P₀.stageAt place.1 place.2 = some m)
    (h : arrival previous = none) : m.linkRows = [] := by
  have ht : place.1 = 0 := (locate_fst hplace).trans (hprevious (Option.map_eq_none_iff.mp h))
  exact hP₀.first place.2 m (ht ▸ hm)

theorem visit_keepsCuts (hP₀ : P₀.Settled) (lp : Solver α) (k s : Datum α)
    (previous : Option (Visit α)) (hprevious : previous = none → t = 0) : Keeps (P₀.SameCuts · P')
    (visit lp t k s previous) := by
  rw [visit_eq]
  refine Keeps.get_bind fun P => .bind .ofExcept fun i => Triple.get_bind fun P hP => ?_
  rw [hP.left.locate_eq]
  refine Triple.bind (Q := fun place P => P₀.SameCuts P P' ∧ P₀.locate t i = .ok place)
    (Triple.ofExcept (fun P' place hP' h => ⟨hP' ▸ hP, h⟩) fun P' hP' => hP' ▸ hP) fun place =>
    Triple.of_and fun hplace => ?_
  exact onModel_keepsCuts fun m hm pool => Stage.follow_keeps (hP₀.models _ _ m hm)
    (hP₀.arrival_none hprevious hplace hm) lp _ t k s pool

theorem visit_coupled (hP₀ : P₀.Settled) (hlp : lp.Blind) (k s : Datum α)
    (previous : Option (Visit α)) (hprevious : previous = none → t = 0) :
    Coupled P₀.SameCuts (visit lp t k s previous) (visit lp t k s previous) Eq := by
  rw [visit_eq]
  refine Coupled.get_bind fun P P' hP =>
    (Coupled.ofExcept_eq rfl).bind_same fun i => Coupled.get_bind fun Q Q' hQ => ?_
  rw [hP.left.discount_eq, hP.right.discount_eq, hQ.left.locate_eq, hQ.right.locate_eq]
  refine Coupled.ofExcept_ok.bind ?_
  rintro place _ ⟨rfl, hplace⟩
  exact onModel_coupled fun m hm => Stage.follow_coupled (hP₀.models _ _ m hm)
    (hP₀.arrival_none hprevious hplace hm) hlp _ t k s

theorem computeBound_keepsCuts (hP₀ : P₀.Settled) (lp : Solver α) :
    Keeps (P₀.SameCuts · P') (computeBound lp) :=
  onModel_keepsCuts fun m hm pool => by
    have hm' := hP₀.models 0 0 m hm
    change Keeps _ (Stage.estimate lp)
    rw [Stage.estimate_eq]
    have harrival : (none : Arrival α) = none → m.linkRows = [] := fun _ => hP₀.first 0 m hm
    refine Stage.enterArrival_keeps hm' harrival ?_
    exact (Stage.solveFor_keeps hm' _ _ _ lp pool).bind fun x => .pure

theorem computeBound_coupled (hP₀ : P₀.Settled) (hlp : lp.Blind) :
    Coupled P₀.SameCuts (computeBound lp) (computeBound lp) Eq :=
  onModel_coupled fun m hm => by
    have hm' := hP₀.models 0 0 m hm
    change Coupled _ (Stage.estimate lp) (Stage.estimate lp) Eq
    rw [Stage.estimate_eq]
    have harrival : (none : Arrival α) = none → m.linkRows = [] := fun _ => hP₀.first 0 m hm
    refine Stage.enterArrival_coupled hm' harrival ?_
    exact (Stage.solveFor_coupled hm' hlp _ _ _).bind fun x x' hx => .pure hx.value

theorem outcomes_keepsCuts (hP₀ : P₀.Settled) (lp : Solver α) (t k : ℕ) (state : List α)
    (noise : Option (List α)) :
    Keeps (P₀.SameCuts · P') (outcomes lp t k state noise) :=
  onModel_keepsCuts fun m hm pool => Stage.outcomes_keeps (hP₀.models t k m hm) lp state noise pool

theorem outcomes_coupled (hP₀ : P₀.Settled) (hlp : lp.Blind) (t k : ℕ) (state : List α)
    (noise : Option (List α)) :
    Coupled P₀.SameCuts (outcomes lp t k state noise) (outcomes lp t k state noise) Eq :=
  onModel_coupled fun m hm => Stage.outcomes_coupled (hP₀.models t k m hm) hlp state noise

/-! ### New cuts -/

def cutFor (P : Multistage α) (t j : ℕ) (found : Outcomes α) (state : List α)
    (noise : Option (List α)) :
    Except (Fault α) (Cut α) := do
  let total ← P.judge t j found
  let m ← P.model (t - 1 : ℕ) j
  m.newCut total state noise (t - 1 : ℕ) j

omit [Numeral α] in
theorem cutFor_skeleton (P : Multistage α) (t j : ℕ) (found : Outcomes α) (state : List α)
    (noise : Option (List α)) :
    P.skeleton.cutFor t j found state noise = P.cutFor t j found state noise := by
  unfold cutFor
  rw [judge_skeleton, model_skeleton]
  refine bind_congr fun total => ?_
  rcases P.model (t - 1 : ℕ) j with e | m
  · rfl
  · exact congrFun (congrFun (congrFun (congrFun (congrFun m.newCut_bare total) state) noise) _) _

omit [Numeral α] in
theorem refineAt_eq (t j : ℕ) (found : Outcomes α) (state : List α) (noise : Option (List α)) :
    refineAt t j found state noise = (do
      let P ← get
      let cut ← Run.ofExcept (P.cutFor t j found state noise)
      let _ ← onModel (t - 1) j (Stage.onPool (Pool.add cut))) := by
  unfold refineAt
  refine bind_congr fun P => ?_
  unfold cutFor
  rcases P.judge t j found with e | total
  · rfl
  rcases P.model (t - 1 : ℕ) j with e | m
  · rfl
  change _ = Run.ofExcept (m.newCut total state noise (t - 1 : ℕ) j) >>= _
  unfold Stage.newCut
  change (match m.costToGo with | none => _ | some ctg => _) = _
  cases m.costToGo <;> rfl

theorem Kept.cutFor_eq (h : P₀.Kept P) (t j : ℕ) (found : Outcomes α) (state : List α)
    (noise : Option (List α)) :
    P.cutFor t j found state noise = P₀.cutFor t j found state noise :=
  h.same (cutFor · t j found state noise) fun P _ _ => P.cutFor_skeleton t j found state noise

theorem refineAt_coupled (t j : ℕ) (found : Outcomes α) (state : List α) (noise : Option (List α)) :
    Coupled P₀.SameCuts (refineAt t j found state noise) (refineAt t j found state noise) Eq := by
  rw [refineAt_eq]
  refine Coupled.get_bind fun P P' hP => ?_
  rw [hP.left.cutFor_eq, hP.right.cutFor_eq]
  refine (Coupled.ofExcept_eq rfl).bind_same fun cut => Coupled.bind_same ?_ fun _ => .pure rfl
  exact onModel_coupled fun m _ => Stage.onPool_coupled (Pool.grows_add cut)

end Multistage

end Recourse
