import Recourse.Proofs.Multistage.Weighing
import Recourse.Proofs.Risk.Impossible

/-! Markov states that are not moved to. Whatever the outcomes of a stage are in a Markov state to
which another one never moves, the outcomes of the stage are judged alike as they look from there,
and the same cut is added there. -/

namespace Recourse

open RiskMeasure (AgreeWhere Distribution)

variable {α : Type} [Field α] [LinearOrder α] [Numeral α]

omit [Field α] [LinearOrder α] [Numeral α] in
structure Outcomes.Sized (samples width : ℕ) (o : Outcomes α) : Prop where
  values : o.values.length = samples
  gradients : o.gradients.length = samples
  width : ∀ row ∈ o.gradients, row.length = width

namespace Multistage

variable {P : Multistage α} {t j width : ℕ} {found found' : ℕ → Outcomes α}

def SizedAt (P : Multistage α) (t width : ℕ) (found : ℕ → Outcomes α) : Prop :=
  ∀ k ∈ P.reachableStates t, ∀ m, P.stageAt t k = some m → (found k).Sized m.sampleCount width

def gatherAt (P : Multistage α) (t : ℕ) (found : ℕ → Outcomes α) : Outcomes α :=
  gather ((P.reachableStates t).map found)

section

omit [Field α] [LinearOrder α] [Numeral α]

theorem gatherAt_values : (P.gatherAt t found).values = (P.reachableStates t).flatMap
      fun k => (found k).values := by
  simp [gatherAt, gather, List.flatMap_map]

theorem gatherAt_gradients :
    (P.gatherAt t found).gradients = (P.reachableStates t).flatMap
    fun k => (found k).gradients := by
  simp [gatherAt, gather, List.flatMap_map]

end

variable [IsStrictOrderedRing α]

theorem Charted.sized_gatherAt (hp : P.Charted) (h : P.SizedAt t width found) :
    (P.gatherAt t found).Sized (P.places t).length width := by
  have hlength {β : Type} (f : ℕ → List β)
      (hf : ∀ k ∈ P.reachableStates t, ∀ m, P.stageAt t k = some m → (f k).length = m.sampleCount) :
      ((P.reachableStates t).flatMap f).length = (P.places t).length := by
    rw [places, List.length_flatMap, List.length_flatMap]
    refine congrArg List.sum (List.map_congr_left fun k hk => ?_)
    obtain ⟨m, hm, -⟩ := hp.exists_model (hp.lt_counts hk).2
    simp [placesOf, hm, hf k hk m hm]
  refine ⟨?_, ?_, fun row hrow => ?_⟩
  · rw [gatherAt_values]
    exact hlength _ fun k hk m hm => (h k hk m hm).values
  · rw [gatherAt_gradients]
    exact hlength _ fun k hk m hm => (h k hk m hm).gradients
  · rw [gatherAt_gradients] at hrow
    obtain ⟨k, hk, hrow⟩ := List.mem_flatMap.mp hrow
    obtain ⟨m, hm, -⟩ := hp.exists_model (hp.lt_counts hk).2
    exact (h k hk m hm).width row hrow

/-- Data of the outcomes, state by state, agree wherever outcomes can happen if they agree in each
Markov state that is moved to. -/
theorem Charted.agreeWhere_places {β : Type} {f g : ℕ → List β} (hp : P.Charted)
    (hlen : ∀ k ∈ P.reachableStates t,
      ∀ m, P.stageAt t k = some m → (f k).length = m.sampleCount ∧ (g k).length = m.sampleCount)
    (h : ∀ k ∈ P.reachableStates t, P.transitionAt t j k ≠ 0 → f k = g k) :
    AgreeWhere ((P.places t).map (P.placeWeight t j)) ((P.reachableStates t).flatMap f)
      ((P.reachableStates t).flatMap g) := by
  rw [places, List.map_flatMap]
  refine AgreeWhere.flatMap fun k hk => ?_
  obtain ⟨m, hm, -⟩ := hp.exists_model (hp.lt_counts hk).2
  obtain ⟨hf, hg⟩ := hlen k hk m hm
  refine ⟨by simp [placesOf, hm, hf], ?_⟩
  by_cases hmove : P.transitionAt t j k = 0
  · refine AgreeWhere.of_zero (fun x hx => ?_) (hf.trans hg.symm)
    obtain ⟨place, hplace, rfl⟩ := List.mem_map.mp hx
    obtain ⟨s, -, rfl⟩ := List.mem_map.mp hplace
    simp [placeWeight, hmove]
  · rw [h k hk hmove]
    exact ⟨rfl, fun _ _ => rfl⟩

section

variable (hp : P.Charted) (hw : P.Weighted) (ht : t + 1 < P.horizon) (hj : j ∈ P.reachableStates t)
  (hfound : P.SizedAt (t + 1) width found) (hfound' : P.SizedAt (t + 1) width found')
  (h : ∀ k ∈ P.reachableStates (t + 1), P.transitionAt (t + 1) j k ≠ 0 → found k = found' k)
include hp hw ht hj hfound hfound' h

/-- What is not moved to has no influence on how the outcomes of a stage are judged. -/
theorem Charted.judge_congr :
    P.judge (t + 1) j (P.gatherAt (t + 1) found) = P.judge (t + 1) j
      (P.gatherAt (t + 1) found') := by
  rcases hweights : P.outcomeProbabilities (t + 1) j with e | weights
  · simp only [judge, hweights, bind, Except.bind]
  obtain rfl := hw.outcomeProbabilities_eq hweights
  set weights := (P.places (t + 1)).map (P.placeWeight (t + 1) j)
  have hnonneg (i : ℕ) : 0 ≤ weights.getD i 0 := by
    rw [List.getD_eq_getElem?_getD]
    rcases hx : weights[i]? with _ | x
    · exact le_rfl
    · obtain ⟨place, hplace, rfl⟩ := List.mem_map.mp (List.mem_of_getElem? hx)
      exact hp.placeWeight_nonneg hw ht hj (fst_mem_of_mem_places hplace)
  have hpos : ∃ x ∈ weights, 0 < x := by
    obtain ⟨place, hplace, hpos⟩ := hp.exists_placeWeight_pos hw ht hj
    exact ⟨_, List.mem_map_of_mem hplace, hpos⟩
  have hsized := hp.sized_gatherAt hfound
  have hvalues : AgreeWhere weights (P.gatherAt (t + 1) found).values
      (P.gatherAt (t + 1) found').values := by
    rw [gatherAt_values, gatherAt_values]
    exact hp.agreeWhere_places
      (fun k hk m hm => ⟨(hfound k hk m hm).values, (hfound' k hk m hm).values⟩)
      fun k hk hmove => by rw [h k hk hmove]
  have hgradients : AgreeWhere weights (P.gatherAt (t + 1) found).gradients
      (P.gatherAt (t + 1) found').gradients := by
    rw [gatherAt_gradients, gatherAt_gradients]
    exact hp.agreeWhere_places
      (fun k hk m hm => ⟨(hfound k hk m hm).gradients, (hfound' k hk m hm).gradients⟩)
      fun k hk hmove => by rw [h k hk hmove]
  have happly (m : RiskMeasure α) :
      m.apply P.sense (P.gatherAt (t + 1) found).values (P.gatherAt (t + 1) found).gradients
      (some weights) =
        m.apply P.sense (P.gatherAt (t + 1) found').values (P.gatherAt (t + 1) found').gradients
        (some weights) :=
    RiskMeasure.apply_congr hnonneg hpos (by rw [hsized.values, List.length_map])
      (hsized.gradients.trans hsized.values.symm) hsized.width
      (hp.sized_gatherAt hfound').width hvalues hgradients
  simp only [judge, hweights, bind, Except.bind, happly]

theorem Charted.cutFor_congr (state : List α) (noise : Option (List α)) :
    P.cutFor (t + 1) j (P.gatherAt (t + 1) found) state noise = P.cutFor (t + 1) j
      (P.gatherAt (t + 1) found') state noise := by
  rw [cutFor, cutFor, hp.judge_congr hw ht hj hfound hfound' h]

end

/-- What cannot happen has no influence. A measure with parameters that are admissible answers, and
it answers alike if values and gradients are replaced where the probability is zero. And where the
probabilities of all reachable models were accepted for as many samples as they have, the cut that
is added for a Markov state is the same if the outcomes are replaced in the Markov states to which
it never moves. -/
theorem impossible_without_influence :
    (∀ (m : RiskMeasure α) (sense : Sense) (p values values' : List α) (rows rows' : List (List α))
      (width : ℕ),
      m.Admissible → Distribution p → p.length = values.length → rows.length = values.length →
      (∀ row ∈ rows, row.length = width) → (∀ row ∈ rows', row.length = width) →
      AgreeWhere p values values' → AgreeWhere p rows rows' →
      ∃ total, m.apply sense values rows (some p) = .ok total ∧
        m.apply sense values' rows' (some p) = .ok total) ∧
    ∀ P : Multistage α, P.Charted → P.Weighted → ∀ (t j width : ℕ) (found found' : ℕ → Outcomes α),
      t + 1 < P.horizon → j ∈ P.reachableStates t → P.SizedAt (t + 1) width found →
      P.SizedAt (t + 1) width found' →
      (∀ k ∈ P.reachableStates (t + 1), P.transitionAt (t + 1) j k ≠ 0 → found k = found' k) →
      ∀ (state : List α) (noise : Option (List α)),
        P.cutFor (t + 1) j (P.gatherAt (t + 1) found) state noise =
          P.cutFor (t + 1) j (P.gatherAt (t + 1) found') state noise ∧
        (refineAt (t + 1) j (P.gatherAt (t + 1) found) state noise).on P =
          (refineAt (t + 1) j (P.gatherAt (t + 1) found') state noise).on P := by
  refine ⟨fun m sense p values values' rows rows' width hm hp hlen hrows hwidth hwidth' hv hr => ?_,
    fun P hp hw t j width found found' ht hj hfound hfound' h state noise => ?_⟩
  · exact RiskMeasure.apply_agree hm hp.getD_nonneg hp.exists_pos hlen hrows hwidth hwidth' hv hr
  · have hcut := hp.cutFor_congr hw ht hj hfound hfound' h state noise
    refine ⟨hcut, ?_⟩
    rw [refineAt_eq, refineAt_eq, Run.bind_ok _ (Run.get_on P), Run.bind_ok _ (Run.get_on P), hcut]

end Multistage

/-- Outcomes of the third stage of the crossroads: those of the branch with two demands, and that of
the other branch. -/
def Problems.crossroadsFound (worse value slope : ℚ) : ℕ → Outcomes ℚ
  | 0 => { values := [4, worse], gradients := [[-1], [-1]] }
  | _ => { values := [value], gradients := [[slope]] }

open Multistage in
theorem Multistage.impossible_without_influence_crossroads :
    (∃ total, (RiskMeasure.tail (1 / 2) : RiskMeasure ℚ).apply .minimize [1, 9, 1] [[1], [2], [3]]
      (some [1 / 2, 0, 1 / 2]) =
        .ok total ∧
      (RiskMeasure.tail (1 / 2)).apply .minimize [1, -9, 1] [[1], [7], [3]]
      (some [1 / 2, 0, 1 / 2]) = .ok total) ∧
    ∃ p P₀ : Multistage ℚ, create (Problems.outline (.int 3) (.int 0)) = .ok p ∧
      prepare.on (write Problems.crossroadsSteps p) = (.ok (), P₀) ∧ P₀.Charted ∧ P₀.Weighted ∧
      P₀.transitionAt 2 0 1 = 0 ∧
      P₀.cutFor 2 0 (P₀.gatherAt 2 (Problems.crossroadsFound 9 1 (-2))) [1] (some []) =
        P₀.cutFor 2 0 (P₀.gatherAt 2 (Problems.crossroadsFound 9 100 7)) [1] (some []) ∧
      (refineAt 2 0 (P₀.gatherAt 2 (Problems.crossroadsFound 9 1 (-2))) [1] (some [])).on P₀ =
        (refineAt 2 0 (P₀.gatherAt 2 (Problems.crossroadsFound 9 100 7)) [1] (some [])).on P₀ := by
  have hmain := impossible_without_influence (α := ℚ)
  constructor
  · refine hmain.1 _ _ _ _ _ _ _ 1 ⟨by norm_num, by norm_num⟩
      ⟨by decide +kernel, by decide +kernel⟩ rfl rfl (by decide)
      (by decide) ⟨rfl, fun i hi => ?_⟩ ⟨rfl, fun i hi => ?_⟩
    all_goals
      rcases i with _ | _ | i
      · rfl
      · exact absurd rfl hi
      · rfl
  obtain ⟨p, P₀, hcreate, -, hprepare, hweighted, hhorizon, hfirst, hsecond, hmatrix, hcount,
    hcount'⟩ :=
    Problems.crossroads_prepared
  have hcharted : P₀.Charted :=
    ((written_of_create hcreate).write Problems.crossroadsSteps).charted.of_draft
      (draft_of_prepare hprepare)
  have hmove : P₀.transitionAt 2 0 1 = 0 := by simp [transitionAt, hmatrix]
  have hsized (value slope : ℚ) : P₀.SizedAt 2 1 (Problems.crossroadsFound 9 value slope) := by
    intro k hk m hm
    rw [hsecond] at hk
    simp only [List.mem_cons, List.not_mem_nil, or_false] at hk
    obtain rfl | rfl := hk
    · have hsamples : m.sampleCount = 2 := by simpa [hm] using hcount
      rw [hsamples]
      exact ⟨rfl, rfl, by simp [Problems.crossroadsFound]⟩
    · have hsamples : m.sampleCount = 1 := by simpa [hm] using hcount'
      rw [hsamples]
      exact ⟨rfl, rfl, by simp [Problems.crossroadsFound]⟩
  refine ⟨p, P₀, hcreate, hprepare, hcharted, hweighted, hmove, ?_⟩
  refine hmain.2 P₀ hcharted hweighted 1 0 1 _ _ (by omega) (by simp [hfirst]) (hsized _ _)
    (hsized _ _) (fun k hk hk' => ?_) _ _
  rw [hsecond] at hk
  simp only [List.mem_cons, List.not_mem_nil, or_false] at hk
  obtain rfl | rfl := hk
  · rfl
  · exact absurd hmove hk'

open Multistage in
/-- Where probabilities are fewer than samples, the probability of the second branch is spent on a
demand of the first one, to which the second branch never moves: its cut depends on what is found
there. -/
theorem Multistage.cutFor_hurried : ∃ p P₀ : Multistage ℚ,
    create (Problems.outline (.int 3) (.int 0)) = .ok p ∧
    prepare.on (write Problems.hurriedSteps p) = (.ok (), P₀) ∧ P₀.transitionAt 2 1 0 = 0 ∧
    P₀.cutFor 2 1 (P₀.gatherAt 2 (Problems.crossroadsFound 9 1 (-2))) [1] (some []) ≠
      P₀.cutFor 2 1 (P₀.gatherAt 2 (Problems.crossroadsFound 6 1 (-2))) [1] (some []) := by
  obtain ⟨p, P₀, hcreate, hprepare, hstates, hmove, hcuts⟩ := Problems.hurried_prepared
  have hgather (worse : ℚ) : P₀.gatherAt 2 (Problems.crossroadsFound worse 1 (-2)) =
      { values := [4, worse, 1], gradients := [[-1], [-1], [-2]] } := by
    rw [gatherAt, hstates]
    rfl
  obtain ⟨c, hc, hintercept, -⟩ := hcuts 9 (by simp)
  obtain ⟨c', hc', hintercept', -⟩ := hcuts 6 (by simp)
  refine ⟨p, P₀, hcreate, hprepare, hmove, fun hsame => ?_⟩
  rw [hgather, hgather, hc, hc'] at hsame
  rw [← Except.ok.inj hsame, hintercept] at hintercept'
  norm_num at hintercept'

end Recourse
