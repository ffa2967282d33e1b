import Recourse.Proofs.Scalar
import Recourse.Risk.Measure
import Recourse.Stage.Solve

/-! New cuts: the affine function that an aggregated value and its gradient at a trial point stand
for. -/

namespace Recourse

variable {α : Type} [Field α] [LinearOrder α]

namespace Cut

theorem value_through (stage markovState : ℤ) (v : α)
    {slopes noiseSlopes state state' noise noise' : List α} (hstate : state'.length = state.length)
    (hnoise : noise'.length = noise.length) :
    (Cut.through stage markovState v slopes state noiseSlopes noise).value state' noise' =
      v + Scalar.dot slopes (List.zipWith (· - ·) state' state) +
        Scalar.dot noiseSlopes (List.zipWith (· - ·) noise' noise) := by
  rw [Scalar.dot_zipWith_sub slopes hstate, Scalar.dot_zipWith_sub noiseSlopes hnoise,
    value, through]
  ring

/-- At a point that fits, a cut has a value, whether it has slopes in the noise or not. -/
theorem value?_some {c : Cut α} {state noise : List α} (hstate : c.slopes.length = state.length)
    (hnoise : c.noiseSlopes = [] ∨ c.noiseSlopes.length = noise.length) :
    c.value? state (some noise) = .ok (c.value state noise) := by
  rw [value?, if_neg (not_not.mpr hstate)]
  by_cases hempty : c.noiseSlopes = []
  · simp [hempty, value]
  · rw [if_neg (by simpa using hempty)]
    exact if_neg (not_not.mpr (hnoise.resolve_left hempty))

end Cut

namespace Stage

variable {m : Stage α} {ctg : CostToGo α} {v : α} {gradient state : List α}
  {noise : Option (List α)}
  {stage markovState : ℤ} {c : Cut α}

/-- The trial point of a new cut: the noise belongs to it where the cost-to-go depends on it. -/
def trialPoint (lagged : Bool) (state : List α) (noise : Option (List α)) : List α :=
  state ++ if lagged then noise.getD [] else []

/-- What a new cut is, if the trial point fits the gradient. -/
theorem buildCut_ok (h : m.buildCut ctg v gradient state noise stage markovState = .ok c) :
    gradient.length = (trialPoint ctg.lagged state noise).length ∧
      (ctg.lagged = true → state.length = min m.states.length gradient.length) ∧
      (ctg.lagged = false → c.noiseSlopes = []) ∧
      ∀ state' noise', state'.length = state.length →
        (ctg.lagged = true → noise'.length + state.length = gradient.length) →
        c.value state' noise' = v + Scalar.dot gradient
          (List.zipWith (· - ·) (trialPoint ctg.lagged state' (some noise'))
            (trialPoint ctg.lagged state noise)) := by
  rw [buildCut] at h
  cases hlagged : ctg.lagged with
  | false =>
    rw [if_neg (by simp [hlagged])] at h
    split_ifs at h with hlength
    obtain rfl := Except.ok.inj h
    refine ⟨by simpa [trialPoint] using hlength, by
      simp, fun _ => rfl, fun state' noise' hstate _ => ?_⟩
    -- without slopes in the noise, the noise makes no difference
    have hfree : (Cut.through stage markovState v gradient state [] []).value state' noise' =
        (Cut.through stage markovState v gradient state [] []).value state' [] := by
      simp [Cut.value, Cut.through]
    rw [hfree, Cut.value_through _ _ _ hstate rfl]
    simp [trialPoint]
  | true =>
    rw [if_pos hlagged] at h
    simp only at h
    split_ifs at h with hstate
    cases noise with
    | none => cases h
    | some noise =>
      simp only at h
      split_ifs at h with hnoise
      obtain rfl := Except.ok.inj h
      rw [not_not] at hstate hnoise
      have htake : state.length = min m.states.length gradient.length := by
        rw [← hstate, List.length_take]
      have hsplit : (gradient.take m.states.length ++ gradient.drop m.states.length) = gradient :=
        List.take_append_drop _ _
      have hlength : gradient.length = state.length + noise.length := by
        rw [← hstate, ← hnoise, ← List.length_append, hsplit]
      refine ⟨by simp [trialPoint, hlength], fun _ => htake, by
        simp, fun state' noise' hstate' hnoise' => ?_⟩
      have hlen : noise'.length = noise.length := by
        have := hnoise' rfl
        omega
      rw [Cut.value_through _ _ _ hstate' hlen, add_assoc]
      congr 1
      have hparts : List.zipWith (· - ·) (trialPoint true state' (some noise'))
          (trialPoint true state (some noise)) =
          List.zipWith (· - ·) state' state ++ List.zipWith (· - ·) noise' noise := by
        simp [trialPoint, List.zipWith_append hstate']
      rw [hparts, ← Scalar.dot_append (by simp [hstate', hstate]), hsplit]

theorem buildCut_fits (h : m.buildCut ctg v gradient state noise stage markovState = .ok c) :
    c.slopes.length = state.length ∧
      (if ctg.lagged then ∃ w, noise = some w ∧
        c.noiseSlopes.length = w.length else c.noiseSlopes = []) := by
  rw [buildCut] at h
  cases hlagged : ctg.lagged with
  | false =>
    rw [if_neg (by simp [hlagged])] at h
    split_ifs at h with hlength
    obtain rfl := Except.ok.inj h
    exact ⟨not_not.mp hlength, rfl⟩
  | true =>
    rw [if_pos hlagged] at h
    dsimp only at h
    split_ifs at h with hstate
    cases noise with
    | none => cases h
    | some w =>
      dsimp only at h
      split_ifs at h with hnoise
      obtain rfl := Except.ok.inj h
      exact ⟨not_not.mp hstate, w, rfl, not_not.mp hnoise⟩

end Stage

/-- A cut that goes through an aggregated value at a trial point and has its gradient: its value is
known wherever the state and the noise have the dimensions of the trial point. -/
structure Cut.Touches (c : Cut α) (lagged : Bool) (total : Aggregate α) (state : List α)
    (noise : Option (List α)) : Prop where
  length : (total.gradient.getD []).length = (Stage.trialPoint lagged state noise).length
  value : ∀ state' noise', state'.length = state.length →
    (lagged = true → noise'.length = (noise.getD []).length) →
    c.value? state' (some noise') = .ok (total.value + Scalar.dot (total.gradient.getD [])
      (List.zipWith (· - ·) (Stage.trialPoint lagged state' (some noise'))
        (Stage.trialPoint lagged state noise)))
  trial : c.value? state noise = .ok total.value

/-- A new cut goes through the value that it is made of. -/
theorem Stage.touches_of_buildCut {m : Stage α} {ctg : CostToGo α} {total : Aggregate α}
    {state : List α} {noise : Option (List α)} {stage markovState : ℤ} {c : Cut α}
    (h : m.buildCut ctg total.value
      (total.gradient.getD []) state noise stage markovState = .ok c) :
    c.Touches ctg.lagged total state noise := by
  obtain ⟨hlength, -, -, hvalue⟩ := buildCut_ok h
  obtain ⟨hslopes, hnoiseSlopes⟩ := buildCut_fits h
  have hsome (state' noise' : List α) (hstate : state'.length = state.length)
      (hnoise : ctg.lagged = true → noise'.length = (noise.getD []).length) :
      c.value? state' (some noise') = .ok (c.value state' noise') := by
    refine Cut.value?_some (hslopes.trans hstate.symm) ?_
    cases hlagged : ctg.lagged with
    | false => exact .inl (by simpa [hlagged] using hnoiseSlopes)
    | true =>
      rw [hlagged, if_pos rfl] at hnoiseSlopes
      obtain ⟨w, rfl, hw⟩ := hnoiseSlopes
      exact .inr (hw.trans (hnoise hlagged).symm)
  have hvalues (state' noise' : List α) (hstate : state'.length = state.length)
      (hnoise : ctg.lagged = true → noise'.length = (noise.getD []).length) :
      c.value state' noise' = total.value + Scalar.dot (total.gradient.getD [])
      (List.zipWith (· - ·)
        (trialPoint ctg.lagged state' (some noise')) (trialPoint ctg.lagged state noise)) := by
    refine hvalue state' noise' hstate fun hlagged => ?_
    rw [hnoise hlagged, hlength, trialPoint, hlagged, if_pos rfl, List.length_append, add_comm]
  refine ⟨hlength, fun state' noise' hstate hnoise => (hsome state' noise' hstate hnoise).trans
    (congrArg Except.ok (hvalues state' noise' hstate hnoise)), ?_⟩
  have hsame : trialPoint ctg.lagged state
      (some (noise.getD [])) = trialPoint ctg.lagged state noise := by
    cases noise <;> rfl
  have htrial : c.value state (noise.getD []) = total.value := by
    rw [hvalues state (noise.getD []) rfl fun _ => rfl, hsame, Scalar.dot_zipWith_sub _ rfl,
      sub_self, add_zero]
  rw [← htrial, ← hsome state (noise.getD []) rfl fun _ => rfl]
  cases noise with
  | some w => rfl
  | none =>
    -- without any noise the cut has no slopes in it, so that it is not looked for
    have hempty : c.noiseSlopes = [] := by
      cases hlagged : ctg.lagged with
      | false => simpa [hlagged] using hnoiseSlopes
      | true => simp [hlagged] at hnoiseSlopes
    simp [Cut.value?, hempty]

end Recourse
