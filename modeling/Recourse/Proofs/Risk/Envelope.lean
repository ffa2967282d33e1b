import Recourse.Proofs.Risk.Validity

/-! Average value at risk as the worst expectation over an envelope. Around the probabilities of the
outcomes lie the weightings that inflate none of them by more than `1 / a`. The program finds one
whose cost none exceeds, and with it both measures weigh the values and the gradients. -/

namespace Recourse.RiskMeasure

variable {α : Type} [Field α] [LinearOrder α] {p q values : List α} {rows : List (List α)}
  {width : ℕ}

def envelopeCosts (sense : Sense) (a : α) (p values : List α) : Set α :=
  {c | ∃ r, TailWeighting a p r ∧ sense.orient (Scalar.dot r values) = c}

def blend (l : α) (xs ys : List α) : List α := xs.zipWith (fun x y => (1 - l) * x + l * y) ys

/-- Weighing by a blend is blending what was weighed. -/
theorem weightedRows_blend (l : α) (h : q.length = p.length) (rows : List (List α)) :
    Scalar.weightedRows width (blend l p q) rows =
      blend l (Scalar.weightedRows width p rows) (Scalar.weightedRows width q rows) := by
  simp only [Scalar.weightedRows, blend, List.zipWith_map, List.zipWith_self, dot_mix l h]

/-- The probabilities that a measure goes by: the given ones or equal ones. -/
theorem distribution_getD [IsStrictOrderedRing α] {w : Option (List α)} (hne : values ≠ [])
    (hw : ∀ p, w = some p → Distribution p ∧ p.length = values.length) :
    Distribution (w.getD (uniform values.length)) ∧
    (w.getD (uniform values.length)).length = values.length := by
  cases w with
  | none => exact ⟨uniform_distribution (by simpa using hne), List.length_replicate⟩
  | some p => exact hw p rfl

/-- Average value at risk is the worst expectation over its envelope. Its weights are a weighting of
the envelope, and none makes the outcomes costlier; the measure answers with the value and the
gradient under these weights, and with a blend of them and those under the probabilities if it is
mixed with the expectation. -/
theorem tail_worst_of_envelope [IsStrictOrderedRing α] (sense : Sense) {a : α} (ha : 0 < a)
    (ha' : a ≤ 1)
    (hne : values ≠ []) {w : Option (List α)}
    (hw : ∀ p, w = some p → Distribution p ∧ p.length = values.length) :
    ∃ p q, p = w.getD (uniform values.length) ∧ tailWeights sense values p a = .ok q ∧
      TailWeighting a p q ∧
      IsGreatest (envelopeCosts sense a p values) (sense.orient (Scalar.dot q values)) ∧
      ∀ rows width, rows.length = values.length → (∀ row ∈ rows, row.length = width) →
        (tail a).apply sense values rows w =
          .ok { value := Scalar.dot q values
                gradient := some (Scalar.weightedRows width q rows) } ∧
        ∀ l, 0 ≤ l → l ≤ 1 → (mixed a l).apply sense values rows w =
          .ok { value := (1 - l) * Scalar.dot p values + l * Scalar.dot q values
                gradient := some (blend l (Scalar.weightedRows width p rows)
                (Scalar.weightedRows width q rows)) } := by
  obtain ⟨hp, hlen⟩ := distribution_getD hne hw
  set p := w.getD (uniform values.length) with hpw
  obtain ⟨q, hrun, hq, hbest⟩ := tailWeights_spec sense hp hlen ha ha'
  refine ⟨p, q, rfl, hrun, hq, ⟨⟨q, hq, rfl⟩, ?_⟩,
    fun rows width hrows hwidth => ⟨?_, fun l hl hl' => ?_⟩⟩
  · rintro _ ⟨r, hr, rfl⟩
    exact hbest r hr
  · have hweigh := weigh_eq (hq.length.trans hlen) hrows hne hwidth
    simp [apply, checkLevel, ha, ha', ← hpw, hrun, hweigh, bind, Except.bind]
  · have hblend : (blend l p q).length = values.length := by simp [blend, hq.length, hlen]
    have hweigh := weigh_eq hblend hrows hne hwidth
    rw [weightedRows_blend l hq.length, blend, dot_mix l hq.length] at hweigh
    simp [apply, checkLevel, checkWeight, ha, ha', hl, hl', ← hpw, hrun, mix_eq l hq.length, hweigh,
      bind, Except.bind]

/-- Four outcomes, the worst of which uses up half of the unit; of two that are next, the first one
cannot happen. -/
theorem tail_worst_of_envelope_ties :
    ∃ q, tailWeights .minimize [3, 9, 5, 5] [1 / 4, 1 / 4, 0, 1 / 2] (1 / 2 : ℚ) = .ok q ∧
      q = [0, 1 / 2, 0, 1 / 2] ∧
      IsGreatest (envelopeCosts .minimize (1 / 2) [1 / 4, 1 / 4, 0, 1 / 2] [3, 9, 5, 5])
        (Scalar.dot q [3, 9, 5, 5]) ∧
      (mixed (1 / 2) (1 / 2)).apply .minimize [3, 9, 5, 5] [[1], [2], [7], [4]]
          (some [1 / 4, 1 / 4, 0, 1 / 2]) =
        .ok { value := (1 - 1 / 2) * Scalar.dot [1 / 4, 1 / 4, 0, 1 / 2] [3, 9, 5, 5] +
                1 / 2 * Scalar.dot q [3, 9, 5, 5]
              gradient := some [23 / 8] } := by
  have hw : ∀ p : List ℚ, some [1 / 4, 1 / 4, 0, 1 / 2] = some p →
      Distribution p ∧ p.length = [3, 9, 5, (5 : ℚ)].length := by
    intro p hp
    obtain rfl := Option.some.inj hp
    exact ⟨⟨by decide +kernel, by decide +kernel⟩, rfl⟩
  obtain ⟨_, q, rfl, hrun, -, hgreatest, happly⟩ :=
    tail_worst_of_envelope .minimize (a := 1 / 2) (by norm_num) (by norm_num) (by simp) hw
  have hq : q = [0, 1 / 2, 0, 1 / 2] := by
    have horder : worstFirst .minimize [3, 9, 5, (5 : ℚ)] = [1, 2, 3, 0] := by cbv
    have hvalue : tailWeights .minimize [3, 9, 5, 5] [1 / 4, 1 / 4, 0, 1 / 2] (1 / 2 : ℚ) = .ok
        [0, 1 / 2, 0, 1 / 2] := by
      rw [tailWeights, horder]
      exact ok_of_toOption (by decide +kernel)
    exact Except.ok.inj (hrun.symm.trans hvalue)
  refine ⟨q, hrun, hq, hgreatest, ?_⟩
  have hmixed := (happly [[1], [2], [7], [4]] 1 rfl (by simp)).2 (1 / 2) (by norm_num) (by norm_num)
  have hgradient : blend (1 / 2)
      (Scalar.weightedRows 1 [1 / 4, 1 / 4, 0, 1 / 2] [[1], [2], [7], [4]])
      (Scalar.weightedRows 1 q [[1], [2], [7], [4]]) = [23 / 8] := by
    rw [hq]
    decide +kernel
  rw [← hgradient]
  exact hmixed

end Recourse.RiskMeasure
