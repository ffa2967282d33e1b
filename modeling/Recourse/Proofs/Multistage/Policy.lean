import Recourse.Proofs.Exhaustive
import Recourse.Proofs.Multistage.Plan
import Recourse.Proofs.Multistage.Preparation
import Recourse.Proofs.Multistage.Validity
import Recourse.Proofs.Stage.Decision

/-! The policy that the cuts give is a plan. Each visit takes a decision that its model allows after
what came in, and counts what the decision costs; so the costs along the paths, weighed by their
probabilities, are the cost of a plan, whatever the cuts are like. -/

namespace Recourse

open Run (Keeps Triple)

variable {α : Type}

/-! ### Rows that stay -/

section

variable [Scalar α] [Numeral α]

theorem Stage.follow_keepsRows {m : Stage α} (hm : m.Settled) (lp : Solver α) (discount : α) (t : ℕ)
    (k s : Datum α) (arrival : Arrival α) : Keeps m.Kept (follow lp discount t k s arrival) := by
  unfold follow
  refine (enterArrival_keepsRows hm arrival).bind fun _ =>
    (enterScenario_keepsRows hm s).bind fun _ => ?_
  exact (solve_keepsRows hm lp _ _).bind fun x => .get_bind fun _ => .pure

theorem Multistage.visit_keepsRows {P₀ : Multistage α} (hP₀ : P₀.Settled) (lp : Solver α) (t : ℕ)
    (k s : Datum α) (previous : Option (Visit α)) : Keeps P₀.Kept (visit lp t k s previous) :=
  visit_keeps_of fun _ _ _ =>
    onModel_keeps fun m hm => Stage.follow_keepsRows (hP₀.models _ _ m hm) lp _ t k s _

end

variable [Field α] [LinearOrder α] [Numeral α]

/-! ### Decisions -/

namespace Junction

variable {j : Junction α} {m : Stage α} {B : Row α → α → Prop} {y z : List α} {q : α}
  {arrival : Arrival α} {n : ℕ}
  {lp : Solver α} {v : Visit α} {discount : α}

def entry (j : Junction α) : Arrival α → ℕ → α → Prop
  | none => AnyLink
  | some (state, noise) => fun i v => (j.incoming state noise)[i]? = some v

def Fits (j : Junction α) : Arrival α → Prop
  | none => True
  | some (state, noise) => (j.incoming state noise).length = j.ids.length

theorem enterArrival_triple (hj : j.Sound) (arrival : Arrival α) :
    Triple (j.AtRest AnyLink) (Stage.enterArrival arrival)
      (fun _ m => j.AtRest (j.entry arrival) m ∧ j.Fits arrival)
      fun _ => True := by
  cases arrival with
  | none => exact Triple.pure fun m hm => ⟨hm, trivial⟩
  | some entry =>
    exact (enterIncoming_triple hj entry.1 entry.2).conseq (fun _ hm => hm) (fun _ _ hm => hm)
      fun _ _ => trivial

theorem follow_triple (hj : j.Sound) (lp : Solver α) (discount : α) (t : ℕ) (k : Datum α) (n : ℕ)
    (arrival : Arrival α) :
    Triple (j.AtRest AnyLink) (Stage.follow lp discount t k (.int n) arrival)
      (fun v m => (j.Joined (j.InScenario n) (j.entry arrival) m ∧ j.Fits arrival) ∧
        ∃ x, Solved lp m x ∧
        v = ⟨k, .int n, (m.outgoing x).1, (m.outgoing x).2, m.ownCost discount t x⟩)
      fun _ => True := by
  unfold Stage.follow
  refine Triple.bind (enterArrival_triple hj arrival) fun _ => Triple.of_and fun hfits => ?_
  refine Triple.bind (Q := fun _ => j.Joined (j.InScenario n) (j.entry arrival))
    ((enterScenario_triple hj (.int n)).conseq (fun _ hm => hm) (fun _ _ hm => hm.2 n rfl)
    fun _ _ => trivial) fun _ => ?_
  refine Triple.bind ((solve_triple lp "forward" (.int n)).conseq (fun _ hm => hm)
    (fun _ _ hm => hm) fun _ _ => trivial)
    fun x => Triple.get_bind fun m hm => Triple.pure ?_
  rintro _ rfl
  exact ⟨⟨hm.1, hfits⟩, x, hm.2, rfl⟩

/-- The values that a decision takes over after an arrival are those that came in. -/
theorem Joined.receives {state noise : List α} (hj : j.Sound)
    (hm : j.Joined B (j.entry (some (state, some noise))) m)
    (hfits : j.Fits (some (state, some noise))) (hpresent : j.Present m)
    (hz : m.program.Feasible (j.extended y q))
    (hy : y.length = j.base.columns.length) (hfirst : j.first = false)
    (hstate : state.length = j.base.copies.length) :
    j.base.Receives state noise y := by
  obtain ⟨hlinks, hnoiseLinks⟩ := hj.links hfirst
  set entering := if j.noiseLinks.isEmpty then [] else noise with hentering
  have hincoming : j.incoming state (some noise) = state ++ entering := by
    rw [incoming, hentering]
    congr 1
    split_ifs with hempty
    · rw [List.isEmpty_iff.mp hempty, List.length_nil] at hlinks
      exact (List.length_eq_zero_iff.mp (hstate.trans hlinks.symm)).symm
    · rfl
  have hlength : (state ++ entering).length = j.ids.length := hincoming ▸ hfits
  have hcopies : j.copies.length = j.ids.length := by simp [copies, ids, hlinks, hnoiseLinks]
  have htaken : (j.copies.map fun column => y.getD column 0) = state ++ entering := by
    refine List.ext_getElem (by simp [hcopies, hlength]) fun i hi hi' => ?_
    have hi : i < j.copies.length := by simpa using hi
    have hvalue := hm.copies_eq hj hpresent hz hy (hcopies ▸ hi) (List.getElem?_eq_getElem hi)
    rw [hincoming, List.getElem?_eq_getElem hi'] at hvalue
    simpa using (Option.some.inj hvalue).symm
  rw [copies, List.map_append] at htaken
  obtain ⟨htaken, htaken'⟩ := List.append_inj htaken (by simp [hstate])
  have hforall {columns : List ℕ} {xs : List α}
      (h : (columns.map fun column => y.getD column 0) = xs) :
      List.Forall₂ (fun column v => y.getD column 0 = v) columns xs := by
    rw [← h]
    exact List.forall₂_map_right_iff.mpr (List.forall₂_same.mpr fun _ _ => rfl)
  refine ⟨hforall htaken, fun hne => hforall (htaken'.trans ?_)⟩
  have hsome : j.noiseLinks.isEmpty = false := by
    rw [List.isEmpty_eq_false_iff, ← List.length_pos_iff, hnoiseLinks]
    exact List.length_pos_iff.mpr hne
  rw [hentering, hsome]
  rfl

structure Decided (j : Junction α) (discount : α) (t n : ℕ) (arrival : Arrival α) (v : Visit α)
    (y : List α) : Prop where
  allows : j.base.Allows n y
  starts : j.first = true → j.base.Starts y
  receives : ∀ state noise, arrival = some (state, some noise) → j.first = false →
    state.length = j.base.copies.length →
    j.base.Receives state noise y
  state : v.state = j.base.outState y
  noise : v.noise = j.base.outNoise y
  cost : v.cost = discount ^ t * j.base.program.objective y

/-- A visit of a joined model, none of whose rows is missing, takes a decision. -/
theorem exists_decided (hj : j.Sound) (hlp : lp.Exact) (htrimmed : ∀ c ∈ j.base.columns, c.Trimmed)
    (halpha : ∀ column, j.alpha = some column → column.cost = discount) {t : ℕ} {k : Datum α}
    {M M' : Stage α} (hM : j.AtRest AnyLink M) (hpresent : j.Present M')
    (hrun : (Stage.follow lp discount t k (.int n) arrival).on M = (.ok v, M')) :
    ∃ y, j.Decided discount t n arrival v y := by
  obtain ⟨⟨hjoined, hfits⟩, x, ⟨o, hverdict, hvalue, hpoint, -⟩, rfl⟩ :=
    (follow_triple hj lp discount t k n arrival M hM).1 v M' hrun
  obtain ⟨hfeasible, hobjective, -⟩ := hlp _ o hverdict
  obtain ⟨y, q, hz, hy, hwithin⟩ := hjoined.exists_extended (Program.feasible_iff.mp hfeasible).1
  rw [hz] at hfeasible
  have hx : x.point = j.extended y q := hpoint.trans hz
  have hvalue' : M'.program.objective x.point = x.value := by rw [hpoint, hobjective, hvalue]
  have hout := hjoined.outgoing_eq hj htrimmed hx hwithin
  refine ⟨y, hjoined.allows hj hpresent hfeasible hy hwithin,
    fun hfirst => hpresent.starts hj hfirst hfeasible hy,
    fun state noise harrival hfirst hstate =>
    ?_, by rw [hout], by rw [hout], hjoined.ownCost_eq halpha t hx hvalue' hy⟩
  subst harrival
  exact hjoined.receives hj hfits hpresent hfeasible hy hfirst hstate

end Junction

namespace Multistage

variable {p P₀ P Q : Multistage α} {F : Prospect α} {lp : Solver α} {v : Visit α}

/-! ### Costs along paths -/

def visited (P : Multistage α) (lp : Solver α) (t : ℕ) (step : ℤ × ℤ)
    (previous : Option (Visit α)) :
    Except (Fault α) (Visit α) := ((visit lp t (.int step.1) (.int step.2) previous).on P).1

/-- The costs of the visits along a path, each of which starts from the same problem. -/
def costsAlong (P : Multistage α) (lp : Solver α) : ℕ → Option (Visit α) → ScenarioPath →
    Except (Fault α) α
  | _, _, [] => .ok 0
  | t, previous, step :: path => do
    let v ← P.visited lp t step previous
    return v.cost + (← P.costsAlong lp (t + 1) (some v) path)

theorem visited_of_costsAlong {t : ℕ} {previous : Option (Visit α)} {step : ℤ × ℤ}
    {path : ScenarioPath} {x : α}
    (h : P.costsAlong lp t previous (step :: path) = .ok x) :
    ∃ v, P.visited lp t step previous = .ok v := by
  obtain ⟨v, hv, -⟩ := ok_of_bind h
  exact ⟨v, hv⟩

theorem costsAlong_tail {t : ℕ} {previous : Option (Visit α)} {step : ℤ × ℤ}
    {path : ScenarioPath} {x : α}
    (hv : P.visited lp t step previous = .ok v)
    (h : P.costsAlong lp t previous (step :: path) = .ok x) :
    P.costsAlong lp (t + 1) (some v) path = .ok (x - v.cost) := by
  rw [costsAlong, hv] at h
  obtain ⟨y, hy, hsum⟩ := ok_of_bind (show (P.costsAlong lp (t + 1) (some v) path >>= fun y =>
    Except.ok (v.cost + y)) = _ from h)
  rw [hy, ← Except.ok.inj hsum, add_sub_cancel_left]

/-- A walk along the rest of a path costs what the visits do. -/
theorem walkFrom_costs (hP₀ : P₀.Fresh) (hlp : lp.Blind) (hQ : P₀.SameCuts Q P)
    (before path : ScenarioPath) (previous : Option (Visit α))
    (hprevious : previous = none → before = []) :
    ((walkFrom lp (Guide.along (before ++ path)) path.length before.length previous).on
      { problem := Q, source := () }).1.map Trajectory.value =
      P.costsAlong lp before.length previous path := by
  induction path generalizing Q before previous with
  | nil => rfl
  | cons step path ih =>
    have hstart : previous = none → before.length = 0 := fun h =>
      List.length_eq_zero_iff.mpr (hprevious h)
    have hentry : (entryAt (before ++ step :: path) before.length : Except (Fault α) (ℤ × ℤ)) =
        .ok step := by
      simp [entryAt]
    have hguide : ((Guide.along (before ++ step :: path) : Guide Unit α) Q before.length
        (comesFrom previous)).on () =
        (.ok (.int step.1, .int step.2), ()) := by
      rw [Guide.along, hentry]
      rfl
    have hvisit := visit_coupled hP₀.toSettled hlp (.int step.1)
      (.int step.2) previous hstart Q P hQ
    have hkeeps : Keeps (P₀.SameCuts · P)
        (visit lp before.length (.int step.1) (.int step.2) previous) :=
      visit_keepsCuts hP₀.toSettled lp (.int step.1) (.int step.2) previous hstart
    have hkept := Keeps.iff_on.mp hkeeps Q hQ
    rw [costsAlong, visited, ← hvisit.1.eq]
    rcases hrun : (visit lp before.length (.int step.1) (.int step.2) previous).on Q with ⟨r, Q'⟩
    rw [hrun] at hkept
    have hproblem :
        (Simulation.onProblem (visit lp before.length (.int step.1) (.int step.2) previous)).on
        ({ problem := Q, source := () } : Simulation Unit α) =
        (r, { problem := Q', source := () }) := by
      rw [Simulation.onProblem, Run.zoom_on, hrun]
    rw [List.length_cons, walkFrom_on hguide]
    rcases r with e | v
    · rw [Run.bind_error _ hproblem]
      rfl
    · have hrest := ih hkept (before ++ [step]) (some v) (by simp)
      rw [List.append_assoc, List.singleton_append, List.length_append,
        List.length_singleton] at hrest
      rw [Run.bind_ok _ hproblem]
      change _ = (do return v.cost + (← P.costsAlong lp (before.length + 1) (some v) path))
      rw [← hrest]
      rcases hlater : (walkFrom lp (Guide.along (before ++ step :: path)) path.length
        (before.length + 1) (some v)).on
        ({ problem := Q', source := () } : Simulation Unit α) with ⟨e | rest, x⟩
      · rw [Run.bind_error _ hlater]
        rfl
      · rw [Run.bind_ok _ hlater]
        refine congrArg Except.ok ?_
        simp only [Trajectory.value, Scalar.total_eq_sum, List.map_cons, List.sum_cons]

/-- What a path is worth is what the visits along it cost. -/
theorem worth_eq (hP₀ : P₀.Fresh) (hlp : lp.Blind) (hP : P₀.Kept P) {path : ScenarioPath}
    (hpath : path.length = P.horizon) :
    P.worth lp path = P.costsAlong lp 0 none path := by
  rw [← List.length_nil (α := ℤ × ℤ), ← walkFrom_costs hP₀ hlp hP.sameCuts [] path none
    fun _ => rfl, hpath]
  rfl

/-! ### The policy as a plan -/

/-- A problem in training, none of whose rows has been lost since it was prepared. -/
structure Guarded (p P₀ : Multistage α) (F : Prospect α) (P : Multistage α) : Prop where
  checked : p.Checked
  fresh : P₀.Fresh
  start : p.Trained F P₀
  complete : p.Each (fun t k base => (p.junction F t k base).Complete) P₀
  kept : P₀.Kept P
  trained : p.Trained F P

theorem Trained.discount_eq (h : p.Trained F P) : P.discount = p.discount := by rw [h.frame]

theorem alpha_cost {t k : ℕ} {base : Stage α} {column : Column α}
    (h : (p.junction F t k base).alpha = some column) :
    column.cost = p.discount := by
  obtain ⟨-, b, -, rfl⟩ := costToGoColumn?_eq_some (p := p) (t := t) h
  cases p.sense <;> rfl

theorem Guarded.exists_decided (h : p.Guarded P₀ F P) (hlp : lp.Exact) {t k s : ℕ}
    (ht : t < p.horizon) (hk : k ∈ p.reachableStates t) {base : Stage α}
    (hbase : p.stageAt t k = some base)
    (htrimmed : ∀ c ∈ base.columns, c.Trimmed) {previous : Option (Visit α)}
    (hv : P.visited lp t (↑k, ↑s) previous = .ok v) :
    ∃ y, (p.junction F t k base).Decided p.discount t s (arrival previous) v y := by
  have hj : (p.junction F t k base).Sound := h.checked.wellFormed.sound hk hbase
  obtain ⟨m, hm, hrest₀⟩ := h.start.models t k base ht hk hbase
  obtain ⟨m', hm', hcomplete⟩ := h.complete t k base ht hk hbase
  obtain rfl := Option.some.inj (hm.symm.trans hm')
  obtain ⟨M, hM, hrest⟩ := h.trained.models t k base ht hk hbase
  have hkept := h.kept.models t k m M hm hM
  have hlocate : P.locate t k = .ok (t, k) := by
    obtain ⟨ms, hms, hM⟩ := stageAt_eq_some.mp hM
    have ht := (List.getElem?_eq_some_iff.mp hms).1
    have hk := (List.getElem?_eq_some_iff.mp hM).1
    have hgetD : P.models.getD t [] = ms := by simp [hms]
    rw [locate, resolve_natCast, if_pos ht]
    dsimp only
    rw [hgetD, resolve_natCast, if_pos hk]
  have hvisit : (visit lp t (.int k) (.int s) previous).on P =
      (onModel t k (Stage.follow lp P.discount t (.int k) (.int s) (arrival previous))).on P := by
    rw [visit_eq, Run.bind_ok _ (Run.get_on P)]
    change (Run.ofExcept (.ok (k : ℤ)) >>= _ : Run α (Multistage α) _).on P = _
    rw [Run.bind_ok _ (Run.ofExcept_on _ P), Run.bind_ok _ (Run.get_on P), hlocate,
      Run.bind_ok _ (Run.ofExcept_on _ P)]
  rw [visited, hvisit, onModel_on_some hM] at hv
  rcases hrun : (Stage.follow lp P.discount t (.int k) (.int s) (arrival previous)).on M
    with ⟨r, M'⟩
  rw [hrun] at hv
  obtain rfl : r = .ok v := hv
  have hkept' : m.Kept M' := by
    have hsettled := h.fresh.models t k m hm
    have hM' := Keeps.iff_on.mp (Stage.follow_keepsRows hsettled lp P.discount t (.int k) (.int s)
      (arrival previous)) M hkept
    rwa [hrun] at hM'
  rw [h.trained.discount_eq] at hrun
  exact Junction.exists_decided hj hlp htrimmed (fun _ => alpha_cost) hrest
    (hcomplete.present hj hrest₀ hkept') hrun

section

variable [IsStrictOrderedRing α] (hp : p.Charted)
include hp

theorem Charted.mem_successors_of_place {t j : ℕ} (ht : t + 1 < p.horizon)
    (hj : j ∈ p.reachableStates t) {place : ℕ × ℕ}
    (hpos : 0 < p.placeWeight (t + 1) j place) :
    (↑place.1, ↑place.2) ∈ p.successors (t + 1 : ℕ) j := by
  refine (hp.mem_successors ht hj).mpr ⟨place.1, place.2, rfl, ?_, right_ne_zero_of_mul hpos.ne'⟩
  exact (hp.transitionAt_nonneg ht hj place.1).lt_of_ne (left_ne_zero_of_mul hpos.ne').symm

variable (hs : p.Stochastic) (hlp : lp.Exact)
  (htrimmed : ∀ t k m, p.stageAt t k = some m → ∀ c ∈ m.columns, c.Trimmed)
include hs hlp htrimmed

/-- A visit of the next stage takes a decision, and what the policy costs from there on is what that
decision costs with a plan behind it. -/
theorem Guarded.exists_outcome (h : p.Guarded P₀ F P) {n t j : ℕ} (hn : t + n + 2 = p.horizon)
    (hj : j ∈ p.reachableStates t) {base : Stage α} (hbase : p.stageAt t j = some base)
    (hv : v.state.length = base.states.length) {place : ℕ × ℕ}
    (hk : place.1 ∈ p.reachableStates (t + 1)) {f : ScenarioPath → α}
    (hcosts : ∀ path ∈ p.continuations n (t + 2) place.1,
      P.costsAlong lp (t + 1) (some v) ((↑place.1, ↑place.2) :: path) = .ok (f path))
    (hplan : ∀ {m : Stage α} {u : Visit α} {g : ScenarioPath → α},
      p.stageAt (t + 1) place.1 = some m → u.state.length = m.states.length →
      (∀ path ∈ p.continuations n (t + 2) place.1,
        P.costsAlong lp (t + 2) (some u) path = .ok (g path)) →
      ∃ q, p.PlanFrom n (t + 1) place.1 u.state u.noise q ∧
        p.expectationFrom n (t + 2) place.1 g = p.discount ^ (t + 2) * q) :
    ∃ w, (∃ m, p.stageAt (t + 1) place.1 = some m ∧
        m.Costs p.discount (p.PlanFrom n (t + 1) place.1) (m.Receives v.state v.noise) place.2 w) ∧
      p.expectationFrom n (t + 2) place.1 f = p.discount ^ (t + 1) * w := by
  have ht : t + 1 < p.horizon := by omega
  obtain ⟨m, hm⟩ := h.checked.wellFormed.reachable (t + 1) ht place.1 hk
  obtain ⟨path, hpath⟩ :=
    List.exists_mem_of_ne_nil _ (hp.continuations_ne_nil hs (n := n) (by omega) hk)
  obtain ⟨u, hu⟩ := visited_of_costsAlong (hcosts path hpath)
  obtain ⟨y, hy⟩ := h.exists_decided hlp ht hk hm (htrimmed _ _ m hm) hu
  have hcopies := h.checked.aligned.copies t j place.1 base m ht hj hbase hk hm
  have hreceives : m.Receives v.state v.noise y :=
    hy.receives v.state v.noise rfl (by simp [junction, Junction.of]) (hv.trans hcopies.symm)
  have hlength : u.state.length = m.states.length := by
    rw [hy.state]
    exact List.length_map _
  have hlater (path : ScenarioPath) (hpath : path ∈ p.continuations n (t + 2) place.1) :
      P.costsAlong lp (t + 2) (some u) path = .ok (f path - u.cost) :=
    costsAlong_tail hu (hcosts path hpath)
  obtain ⟨q, hq, hmean⟩ := hplan hm hlength hlater
  rw [hy.state, hy.noise] at hq
  refine ⟨m.program.objective y + p.discount * q,
    ⟨m, hm, y, q, hy.allows, hreceives, hq, rfl⟩, ?_⟩
  calc p.expectationFrom n (t + 2) place.1 f
      = p.expectationFrom n (t + 2) place.1 fun path => u.cost + (f path - u.cost) := by simp
    _ = u.cost + p.discount ^ (t + 2) * q := by
      rw [hp.expectationFrom_const_add hs (by omega) hk, hmean]
    _ = p.discount ^ (t + 1) * (m.program.objective y + p.discount * q) := by
      rw [hy.cost]
      change p.discount ^ (t + 1) * m.program.objective y + _ = _
      ring

/-- What the policy costs from a visit on is what a plan costs there. By induction on the stages
that are left: the visits of the next stage take decisions, and behind each of them the policy is a
plan again. -/
theorem Guarded.exists_planFrom (h : p.Guarded P₀ F P) {n t j : ℕ} (hn : t + n + 1 = p.horizon)
    (hj : j ∈ p.reachableStates t) {base : Stage α} (hbase : p.stageAt t j = some base)
    (hv : v.state.length = base.states.length) {f : ScenarioPath → α}
    (hf : ∀ path ∈ p.continuations n (t + 1) j,
      P.costsAlong lp (t + 1) (some v) path = .ok (f path)) :
    ∃ q, p.PlanFrom n t j v.state v.noise q ∧
      p.expectationFrom n (t + 1) j f = p.discount ^ (t + 1) * q := by
  have hwf := h.checked.wellFormed
  induction n generalizing t j base v f with
  | zero =>
    have hnone : f [] = 0 := (Except.ok.inj (hf [] (by simp [continuations]))).symm
    exact ⟨0, rfl, by rw [expectationFrom, hnone, mul_zero]⟩
  | succ n ih =>
    have ht : t + 1 < p.horizon := by omega
    have houtcome (place : ℕ × ℕ) :
        ∃ w, place ∈ p.places (t + 1) → 0 < p.placeWeight (t + 1) j place →
        (∃ m, p.stageAt (t + 1) place.1 = some m ∧
          m.Costs p.discount (p.PlanFrom n (t + 1) place.1)
          (m.Receives v.state v.noise) place.2 w) ∧
        (p.expectationFrom n (t + 2) place.1 fun path => f ((↑place.1, ↑place.2) :: path)) =
        p.discount ^ (t + 1) * w := by
      by_cases hplace : place ∈ p.places (t + 1) ∧ 0 < p.placeWeight (t + 1) j place
      · have hk := fst_mem_of_mem_places hplace.1
        obtain ⟨w, hw⟩ := h.exists_outcome hp hs hlp htrimmed (by omega) hj hbase hv hk
          (fun path hpath => hf _ (List.mem_flatMap.mpr
            ⟨_, hp.mem_successors_of_place ht hj hplace.2, List.mem_map.mpr ⟨path, hpath, rfl⟩⟩))
          fun hm hlength hlater => ih (by omega) hk hm hlength hlater
        exact ⟨w, fun _ _ => hw⟩
      · exact ⟨0, fun hmem hpos => absurd ⟨hmem, hpos⟩ hplace⟩
    choose cost hcost using houtcome
    refine ⟨_, ⟨cost, fun place hplace hpos => (hcost place hplace hpos).1, rfl⟩, ?_⟩
    have hweighed (place : ℕ × ℕ) (hplace : place ∈ p.places (t + 1)) :
        p.placeWeight (t + 1) j place *
        (p.expectationFrom n (t + 2) place.1 fun path => f ((↑place.1, ↑place.2) :: path)) =
        p.discount ^ (t + 1) * (p.placeWeight (t + 1) j place * cost place) := by
      rcases ((distribution_places hwf hs ht hj).nonneg _ (List.mem_map_of_mem hplace)).eq_or_lt
        with hzero | hpos
      · rw [← hzero]
        ring
      · rw [(hcost place hplace hpos).2]
        ring
    rw [expectationFrom, stepMean_eq_places hwf hs ht hj, List.map_congr_left hweighed,
      List.sum_map_mul_left]

/-- What the policy is worth is what a plan costs. -/
theorem Guarded.exists_cost (h : p.Guarded P₀ F P) (hblind : lp.Blind) (hfirst : p.Certain)
    {f : ScenarioPath → α} (hf : ∀ path ∈ p.paths, P.worth lp path = .ok (f path)) :
    ∃ m, p.stageAt 0 0 = some m ∧ m.Costs p.discount (p.Plan 0 0) m.Starts 0 (p.expectation f) := by
  obtain ⟨hstart, hn⟩ := hp.start_mem
  have hwf := h.checked.wellFormed
  obtain ⟨m, hm⟩ := hwf.reachable 0 hp.horizon 0 hstart
  have hhorizon : P.horizon = p.horizon := by rw [h.trained.frame]
  have hcosts (path : ScenarioPath) (hpath : path ∈ p.continuations (p.horizon - 1) 1 0) :
      P.costsAlong lp 0 none ((0, 0) :: path) = .ok (f ((0, 0) :: path)) := by
    have hlength : ((0, 0) :: path : ScenarioPath).length = P.horizon := by
      rw [List.length_cons, length_of_mem_continuations hpath, hhorizon]
      omega
    rw [← worth_eq h.fresh hblind h.kept hlength]
    refine hf _ ?_
    rw [paths_eq]
    exact List.mem_map_of_mem hpath
  obtain ⟨path, hpath⟩ := List.exists_mem_of_ne_nil _ (hp.continuations_ne_nil hs hn hstart)
  obtain ⟨u, hu⟩ := visited_of_costsAlong (hcosts path hpath)
  obtain ⟨y, hy⟩ := h.exists_decided hlp (t := 0) (s := 0) hp.horizon hstart hm
    (htrimmed _ _ m hm) hu
  have hlater (path : ScenarioPath) (hpath : path ∈ p.continuations (p.horizon - 1) 1 0) :
      P.costsAlong lp 1 (some u) path = .ok (f ((0, 0) :: path) - u.cost) :=
      costsAlong_tail hu (hcosts path hpath)
  have hlength : u.state.length = m.states.length := by
    rw [hy.state]
    exact List.length_map _
  obtain ⟨q, hq, hmean⟩ := h.exists_planFrom hp hs hlp htrimmed (t := 0) (n := p.horizon - 1)
    (by omega) hstart hm hlength
    hlater
  rw [hy.state, hy.noise] at hq
  refine ⟨m, hm, y, q, hy.allows, hy.starts (by simp [junction, Junction.of]), hq, ?_⟩
  calc p.expectation f
      = p.expectationFrom (p.horizon - 1) 1 0 fun path =>
      u.cost + (f ((0, 0) :: path) - u.cost) := by
        rw [hp.expectation_eq hs hfirst]
        simp
    _ = u.cost + p.discount * q := by
        rw [hp.expectationFrom_const_add hs hn hstart, hmean, zero_add, pow_one]
    _ = m.program.objective y + p.discount * q := by
        rw [hy.cost, pow_zero, one_mul]
        rfl

end

end Multistage

end Recourse
