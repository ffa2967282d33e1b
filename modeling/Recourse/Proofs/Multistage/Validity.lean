import Recourse.Proofs.Multistage.Trained
import Recourse.Proofs.Risk.Validity
import Recourse.Proofs.Stage.NewCut
import Recourse.Multistage.Refinement

/-! Why a new cut is valid. At the stage behind it, the outcomes found at a trial point support the
exact values of all incoming states and noises, as all cuts there are valid and the bound is one of
the cost-to-go. The measure of risk carries this over to the aggregate, and the cut is the affine
function that it gives. -/

namespace Recourse

variable {α : Type} [Field α] [LinearOrder α]

namespace Multistage

variable {p : Multistage α} {F : Prospect α} {t j k s : ℕ} {base next : Stage α}
  {state noise y : List α} {q : α}

/-! ### Incoming values -/

/-- There are copies of the noise exactly where a stage is lagged. -/
theorem Aligned.noiseCopies_eq_nil (h : p.Aligned) (hr : p.WellFormed) (ht : t + 1 < p.horizon)
    (hj : j ∈ p.reachableStates t) (hk : k ∈ p.reachableStates (t + 1))
    (hnext : p.stageAt (t + 1) k = some next) :
    next.noiseCopies = [] ↔ p.isLagged (t + 1) = false := by
  obtain ⟨previous, hprevious⟩ := hr.reachable t (by omega) j hj
  have hlength := h.noiseCopies t j k previous next ht hj hprevious hk hnext
  cases hlagged : p.isLagged (t + 1) with
  | false =>
    rw [hlagged] at hlength
    simpa using hlength
  | true =>
    obtain ⟨k', hk', other, hother, hne⟩ := isLagged_iff.mp hlagged
    have hsame := h.noiseCopies t j k' previous other ht hj hprevious hk' hother
    rw [hlagged, if_pos rfl] at hlength hsame
    have : next.noiseCopies.length ≠ 0 := by
      rw [hlength, ← hsame]
      simpa using hne
    simpa using this

variable [Numeral α]

theorem incoming_eq (hp : p.Checked) (ht : t + 1 < p.horizon) (hj : j ∈ p.reachableStates t)
    (hk : k ∈ p.reachableStates (t + 1)) (hnext : p.stageAt (t + 1) k = some next)
    (hstate : state.length = next.copies.length) (noise : Option (List α)) :
    (p.junction F (t + 1) k next).incoming state noise = Stage.trialPoint
    (p.isLagged (t + 1)) state noise := by
  have hnil := hp.aligned.noiseCopies_eq_nil hp.wellFormed ht hj hk hnext
  have hlinks : (p.junction F (t + 1) k next).links = List.range' next.issued next.copies.length :=
    rfl
  have hnoise : (p.junction F (t + 1) k next).noiseLinks =
      List.range' (next.issued + next.copies.length) next.noiseCopies.length := rfl
  rw [Junction.incoming, Stage.trialPoint, hlinks, hnoise]
  congr 1
  · by_cases hempty : next.copies.length = 0
    · simp [hempty, List.length_eq_zero_iff.mp (hstate.trans hempty)]
    · simp [hempty]
  · by_cases hlagged : p.isLagged (t + 1) = true
    · have hne : next.noiseCopies ≠ [] := fun h => by simp [hlagged] at hnil; exact hnil h
      simp [hlagged, hne]
    · have hempty : next.noiseCopies = [] := hnil.mpr (by simpa using hlagged)
      simp [hlagged, hempty]

theorem copies_eq (hp : p.Checked) (ht : t + 1 < p.horizon) (hj : j ∈ p.reachableStates t)
    (hk : k ∈ p.reachableStates (t + 1)) (hnext : p.stageAt (t + 1) k = some next)
    (hy : next.Receives state noise y) :
    ((p.junction F (t + 1) k next).copies.map fun i => y.getD i 0) =
      Stage.trialPoint (p.isLagged (t + 1)) state (some noise) := by
  have hnil := hp.aligned.noiseCopies_eq_nil hp.wellFormed ht hj hk hnext
  have hvalues {columns : List ℕ} {xs : List α}
      (h : List.Forall₂ (fun i v => y.getD i 0 = v) columns xs) :
      (columns.map fun i => y.getD i 0) = xs := by
    induction h with
    | nil => rfl
    | cons hv _ ih => rw [List.map_cons, hv, ih]
  have hcopies : (p.junction F (t + 1) k next).copies = next.copies ++ next.noiseCopies := rfl
  rw [hcopies, List.map_append, hvalues hy.state, Stage.trialPoint]
  congr 1
  by_cases hlagged : p.isLagged (t + 1) = true
  · rw [if_pos hlagged, Option.getD_some]
    exact hvalues (hy.noise fun h => by simp [hnil.mp h] at hlagged)
  · rw [if_neg hlagged, hnil.mpr (by simpa using hlagged), List.map_nil]

/-! ### Decisions -/

theorem bound_eq {limit : Limit α} (h : p.bound = .ok limit) :
    ∃ b, p.outline.bound.asNumber = .ok b ∧ limit = .fin b := by
  rw [bound, Datum.asLimit] at h
  cases hb : p.outline.bound.asNumber with
  | error e => rw [hb] at h; cases h
  | ok b =>
    rw [hb] at h
    obtain rfl := Except.ok.inj h
    exact ⟨b, rfl, by simp [Limit.ofNumber]⟩

theorem costToGoColumn?_eq_some {t : ℕ} {column : Column α}
    (h : p.costToGoColumn? t = some column) :
    t + 1 < p.horizon ∧ ∃ b, p.outline.bound.asNumber = .ok b ∧
      column = Junction.costToGoColumn p.sense p.discount (.fin b) := by
  rw [costToGoColumn?] at h
  split_ifs at h with ht
  obtain ⟨limit, hlimit, rfl⟩ := Option.map_eq_some_iff.mp h
  cases hbound : p.bound with
  | error e => rw [hbound] at hlimit; cases hlimit
  | ok limit' =>
    rw [hbound] at hlimit
    obtain rfl := Option.some.inj hlimit
    obtain ⟨b, hb, rfl⟩ := bound_eq hbound
    exact ⟨ht, b, hb, rfl⟩

/-- The joined program counts the discounted cost-to-go, as the exact problem does. -/
theorem objective_eq (hp : p.Checked) (hF : p.Realistic F)
    (hq : F t k (base.outState y) (base.outNoise y) q) :
    base.program.objective y + ((p.junction F t k base).alpha.map
      fun column => column.cost * q).getD 0 =
      base.program.objective y + p.discount * q := by
  congr 1
  change ((p.costToGoColumn? t).map fun column => column.cost * q).getD 0 = p.discount * q
  by_cases ht : t + 1 < p.horizon
  · obtain ⟨limit, hlimit⟩ := hp.bound (by omega)
    have hcolumn : p.costToGoColumn? t = some
        (Junction.costToGoColumn p.sense p.discount limit) := by
      rw [costToGoColumn?, if_pos ht, hlimit]
      rfl
    rw [hcolumn]
    cases p.sense <;> rfl
  · rw [costToGoColumn?, if_neg ht, hF.last t k _ _ q ht hq]
    simp

variable [IsStrictOrderedRing α]

/-- What the exact problem of a model allows, with the exact cost-to-go, decides the joined one. -/
theorem decides (hp : p.WellFormed) (hF : p.Realistic F) (hk : k ∈ p.reachableStates t)
    (hbase : p.stageAt t k = some base) (hy : base.Allows s y) (hstarts : t = 0 → base.Starts y)
    (hq : F t k (base.outState y) (base.outNoise y) q) : (p.junction F t k base).Decides s y q where
  allows := hy
  starts := fun hfirst => hstarts (by simpa [junction, Junction.of] using hfirst)
  limits := by
    intro column hcolumn v hv
    obtain ⟨ht, b, hbound, rfl⟩ := costToGoColumn?_eq_some hcolumn
    exact Junction.costToGoColumn_allows hv (hF.bounded b hbound t k _ _ q ht hk hq)
  cuts := by
    rintro c ⟨hvalid, hnoise⟩ -
    change base.sense.orient (base.cutValue (p.isLagged (t + 1)) c y) ≤ base.sense.orient q
    rw [Stage.cutValue_eq base hnoise, (hp.models t k base hk hbase).2]
    exact hvalid _ _ q hq

/-! ### New cuts -/

def carried (p : Multistage α) (t : ℕ) (base : Stage α) : ℕ :=
  base.states.length + if p.isLagged (t + 1) then base.noise.length else 0

/-- Whether a value and prices, found at a trial point, support an outcome of stage `t`. -/
def SupportsAt (p : Multistage α) (F : Prospect α) (t : ℕ) (state : List α)
    (noise : Option (List α)) (place : ℕ × ℕ) (result : α × List α) : Prop :=
  ∃ m, p.stageAt t place.1 = some m ∧
    ((p.junction F t place.1 m).incoming state noise).length =
    (p.junction F t place.1 m).ids.length ∧
    (p.junction F t place.1 m).Supports
    ((p.junction F t place.1 m).incoming state noise) place.2 result

/-- Whether outcomes of stage `t`, found at a trial point, support all its outcomes. -/
def Gathered (p : Multistage α) (F : Prospect α) (t : ℕ) (state : List α) (noise : Option (List α))
    (found : Outcomes α) : Prop :=
  ∃ results, List.Forall₂ (p.SupportsAt F t state noise) (p.places t) results ∧
    found = { values := results.map (·.1), gradients := results.map (·.2) }

variable {noise? : Option (List α)} {place : ℕ × ℕ} {result : α × List α} {found : Outcomes α}

omit [IsStrictOrderedRing α] in
theorem SupportsAt.length (h : p.SupportsAt F (t + 1) state noise? place result) (hp : p.Checked)
    (ht : t + 1 < p.horizon) (hj : j ∈ p.reachableStates t) (hbase : p.stageAt t j = some base)
    (hplace : place.1 ∈ p.reachableStates (t + 1)) :
    result.2.length = p.carried t base := by
  obtain ⟨m, hm, -, hsup⟩ := h
  have hids : (p.junction F (t + 1) place.1 m).ids.length = m.copies.length +
      m.noiseCopies.length := by
    rw [junction, Junction.of_ids]
    simp
  rw [carried, hsup.length, hids, hp.aligned.copies t j place.1 base m ht hj hbase hplace hm,
    hp.aligned.noiseCopies t j place.1 base m ht hj hbase hplace hm]

/-- A value and prices that support an outcome are no worse than its exact value, wherever that
is. -/
theorem SupportsAt.le (h : p.SupportsAt F (t + 1) state noise? place result) (hp : p.Checked)
    (hF : p.Realistic F) (ht : t + 1 < p.horizon) (hj : j ∈ p.reachableStates t)
    (hbase : p.stageAt t j = some base)
    (hplace : place.1 ∈ p.reachableStates (t + 1)) (hstate : state.length = base.states.length)
    {state' noise' : List α} {v : α} (hv : p.OutcomeFor F (t + 1) state' noise' place v) :
    p.sense.orient (result.1 + Scalar.dot result.2 (List.zipWith (· - ·)
        (Stage.trialPoint (p.isLagged (t + 1)) state' (some noise'))
        (Stage.trialPoint (p.isLagged (t + 1)) state noise?))) ≤
      p.sense.orient v := by
  obtain ⟨m, hm, -, hsup⟩ := h
  obtain ⟨m', hm', -, hv⟩ := hv
  obtain rfl := Option.some.inj (hm.symm.trans hm')
  refine hv _ ?_
  rintro w ⟨y, q, hy, hin, hq, rfl⟩
  have hdecides := decides hp.wellFormed hF hplace hm hy (by omega) hq
  have hle := hsup.le y q hdecides
  have hcopies := hp.aligned.copies t j place.1 base m ht hj hbase hplace hm
  rw [incoming_eq hp ht hj hplace hm (hstate.trans hcopies.symm),
    copies_eq hp ht hj hplace hm hin] at hle
  change m.sense.orient _ ≤ m.sense.orient (m.program.objective y + _) at hle
  rw [(hp.wellFormed.models (t + 1) place.1 m hplace hm).2, objective_eq hp hF hq] at hle
  exact hle

omit [IsStrictOrderedRing α] in
theorem OutcomeFor.length {v : α} (hv : p.OutcomeFor F (t + 1) state noise place v) (hp : p.Checked)
    (ht : t + 1 < p.horizon) (hj : j ∈ p.reachableStates t) (hbase : p.stageAt t j = some base)
    (hplace : place.1 ∈ p.reachableStates (t + 1)) :
    state.length = base.states.length ∧
    (p.isLagged (t + 1) = true → noise.length = base.noise.length) := by
  obtain ⟨m, hm, ⟨_, y, q, -, hin, -, -⟩, -⟩ := hv
  refine ⟨?_, fun hlagged => ?_⟩
  · rw [← hin.state.length_eq, hp.aligned.copies t j place.1 base m ht hj hbase hplace hm]
  · have hne : m.noiseCopies ≠ [] := fun h => by
      simp [(hp.aligned.noiseCopies_eq_nil hp.wellFormed ht hj hplace hm).mp h] at hlagged
    rw [← (hin.noise hne).length_eq,
      hp.aligned.noiseCopies t j place.1 base m ht hj hbase hplace hm, if_pos hlagged]

section

variable {results : List (α × List α)} {choice : Preference α} {measure : RiskMeasure α}
  {total : Aggregate α}
  (hp : p.Checked) (hs : p.Stochastic) (ht : t + 1 < p.horizon) (hj : j ∈ p.reachableStates t)
  (hbase : p.stageAt t j = some base)
  (hresults : List.Forall₂ (p.SupportsAt F (t + 1) state noise?) (p.places (t + 1)) results)
  (htotal : measure.apply p.sense (results.map (·.1)) (results.map (·.2))
    (some ((p.places (t + 1)).map (p.placeWeight (t + 1) j))) = .ok total)

include hp ht hj hbase hresults in
omit [IsStrictOrderedRing α] in
private theorem length_gradients : ∀ row ∈ results.map (·.2), row.length = p.carried t base := by
  intro row hrow
  obtain ⟨i, hi, rfl⟩ := List.getElem_of_mem hrow
  have hi' : i < results.length := by simpa using hi
  have hplace : i < (p.places (t + 1)).length := hresults.length_eq ▸ hi'
  rw [List.getElem_map]
  exact (hresults.get hplace hi').length hp ht hj hbase
    (fst_mem_of_mem_places (List.getElem_mem hplace))

include hp hs ht hj hbase hresults htotal in
private theorem exists_gradient : ∃ g, total.gradient = some g ∧ g.length = p.carried t base := by
  have hdist := distribution_places hp.wellFormed hs ht hj
  have hlen : ((p.places (t + 1)).map (p.placeWeight (t + 1) j)).length =
      (results.map (·.1)).length := by
    simp [hresults.length_eq]
  obtain ⟨_, g, hw⟩ :=
    RiskMeasure.apply_spec p.sense (RiskMeasure.admissible_of_apply htotal) hdist
    hlen (by simp) (length_gradients hp ht hj hbase hresults)
  obtain rfl := Except.ok.inj (htotal.symm.trans hw.run)
  exact ⟨g, rfl, hw.length⟩

include hp hs ht hj hbase hresults htotal in
/-- The aggregate of outcomes that support all outcomes of a stage supports the exact cost-to-go of
the stage before. -/
private theorem aggregate_le (hF : p.Realistic F) (hchoice : p.measures[t + 1]? = some choice)
    (hmeasure : choice.measure = .ok measure) (hstate : state.length = base.states.length)
    (hpoint : (Stage.trialPoint (p.isLagged (t + 1)) state noise?).length = p.carried t base)
    {state' noise' : List α} {q : α} (hq : F t j state' noise' q) :
    state'.length = base.states.length ∧
    (p.isLagged (t + 1) = true → noise'.length = base.noise.length) ∧
      p.sense.orient (total.value + Scalar.dot (total.gradient.getD []) (List.zipWith (· - ·)
        (Stage.trialPoint (p.isLagged (t + 1)) state' (some noise'))
        (Stage.trialPoint (p.isLagged (t + 1)) state noise?))) ≤ p.sense.orient q := by
  obtain ⟨values, a, hvalues, ha, rfl⟩ :=
    hF.next t j state' noise' q choice measure ht hj hq hchoice hmeasure
  have hdist := distribution_places hp.wellFormed hs ht hj
  have hplace (i : ℕ) (hi : i < (p.places (t + 1)).length) :
      (p.places (t + 1))[i].1 ∈ p.reachableStates (t + 1) :=
    fst_mem_of_mem_places (List.getElem_mem hi)
  have hweight (i : ℕ) (hi : i < (p.places (t + 1)).length) :
      ((p.places (t + 1)).map (p.placeWeight (t + 1) j)).getD i 0 = p.placeWeight (t + 1) j
      (p.places (t + 1))[i] := by
    simp [hi]
  -- Some outcome is possible, and what comes into it has the dimensions of what goes out.
  obtain ⟨hstate', hnoise'⟩ : state'.length = base.states.length ∧
      (p.isLagged (t + 1) = true → noise'.length = base.noise.length) := by
    obtain ⟨x, hx, hpos⟩ := hdist.exists_pos
    obtain ⟨i, hi, rfl⟩ := List.getElem_of_mem hx
    rw [List.getElem_map] at hpos
    have hi : i < (p.places (t + 1)).length := by simpa using hi
    exact (hvalues.get hi (hvalues.length_eq ▸ hi) hpos).length hp ht hj hbase (hplace i hi)
  refine ⟨hstate', hnoise', ?_⟩
  set d := List.zipWith (· - ·) (Stage.trialPoint (p.isLagged (t + 1)) state' (some noise'))
    (Stage.trialPoint (p.isLagged (t + 1)) state noise?) with hd
  have hdlength : d.length = p.carried t base := by
    rw [hd, List.length_zipWith, hpoint, carried]
    cases hlag : p.isLagged (t + 1) with
    | false => simp [Stage.trialPoint, hstate']
    | true => simp [Stage.trialPoint, hstate', hnoise' hlag]
  have hle : ∀ i < (results.map (·.1)).length,
      0 < ((p.places (t + 1)).map (p.placeWeight (t + 1) j)).getD i 0 →
      p.sense.orient ((results.map (·.1)).getD i 0 + Scalar.dot ((results.map (·.2)).getD i []) d) ≤
        p.sense.orient (values.getD i 0) := by
    intro i hi hpos
    have hi₁ : i < results.length := by simpa using hi
    have hi₂ : i < (p.places (t + 1)).length := hresults.length_eq ▸ hi₁
    rw [hweight i hi₂] at hpos
    have hi₃ : i < values.length := hvalues.length_eq ▸ hi₂
    simpa [List.getD_eq_getElem?_getD, hi₁, hi₃] using
      (hresults.get hi₂ hi₁).le hp hF ht hj hbase (hplace i hi₂) hstate (hvalues.get hi₂ hi₃ hpos)
  have hcount : (values.map fun _ => ([] : List α)).length = values.length := by simp
  have hempty : ∀ row ∈ values.map fun _ => ([] : List α), row.length = 0 := by simp
  obtain ⟨a₁, g, a₂, hrun₁, hg, -, hrun₂, hsupport⟩ := RiskMeasure.apply_supports
    (RiskMeasure.admissible_of_apply htotal) hdist (by simp [hresults.length_eq])
    (by simp [hvalues.length_eq])
    (by simp)
    (fun row hrow => (length_gradients hp ht hj hbase hresults row hrow).trans hdlength.symm)
    hcount hempty hle
  obtain rfl := Except.ok.inj (htotal.symm.trans hrun₁)
  obtain rfl := Except.ok.inj (ha.symm.trans hrun₂)
  rwa [hg]

end

/-- A cut through the aggregate of outcomes that support all outcomes of a stage is valid on the
stage before. -/
theorem valid_of_gathered (hp : p.Checked) (hs : p.Stochastic) (hF : p.Realistic F)
    (ht : t + 1 < p.horizon) (hj : j ∈ p.reachableStates t) (hbase : p.stageAt t j = some base)
    (hfound : p.Gathered F (t + 1) state noise? found) {choice : Preference α}
    {measure : RiskMeasure α}
    {total : Aggregate α} (hchoice : p.measures[t + 1]? = some choice)
    (hmeasure : choice.measure = .ok measure)
    (htotal : measure.apply p.sense found.values found.gradients
      (some ((p.places (t + 1)).map (p.placeWeight (t + 1) j))) = .ok total)
    {m : Stage α} {ctg : CostToGo α} (hstates : m.states = base.states)
    (hlagged : ctg.lagged = p.isLagged (t + 1)) {stage markovState : ℤ} {c : Cut α}
    (hcut : m.buildCut ctg total.value
      (total.gradient.getD []) state noise? stage markovState = .ok c) :
    p.ValidFor F t j c ∧ (p.isLagged (t + 1) = false → c.noiseSlopes = []) := by
  obtain ⟨results, hresults, rfl⟩ := hfound
  obtain ⟨g, hg, hwidth⟩ := exists_gradient hp hs ht hj hbase hresults htotal
  obtain ⟨hlength, htake, hnoise, hvalue⟩ := Stage.buildCut_ok hcut
  rw [hlagged] at hlength htake hnoise hvalue
  have hgradient : (total.gradient.getD []).length = p.carried t base := by
    rw [hg, Option.getD_some, hwidth]
  have hstate : state.length = base.states.length := by
    cases hlag : p.isLagged (t + 1) with
    | false =>
      rw [hgradient, hlag] at hlength
      simpa [Stage.trialPoint, carried, hlag] using hlength.symm
    | true =>
      rw [htake hlag, hgradient, hstates, carried]
      simp
  refine ⟨fun state' noise' q hq => ?_, hnoise⟩
  obtain ⟨hstate', hnoise', hle⟩ :=
    aggregate_le hp hs ht hj hbase hresults htotal hF hchoice hmeasure hstate
    (hlength.symm.trans hgradient) hq
  rwa [hvalue state' noise' (hstate'.trans hstate.symm) fun hlag => ?_]
  rw [hgradient, carried, if_pos hlag, hnoise' hlag, hstate, add_comm]

end Multistage

end Recourse
