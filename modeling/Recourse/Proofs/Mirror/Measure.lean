import Recourse.Proofs.Comparison.Walks
import Recourse.Proofs.Scalar

/-! Costs seen from the other side, where they are negated. Sums, distances and intervals look the
same from there, and a measure weighs the outcomes as before, so that what it makes of them is
negated too. -/

namespace Recourse

variable {α : Type} [Field α] [LinearOrder α]

/-! ### Arithmetic -/

def Sense.opposite : Sense → Sense
  | .minimize => .maximize
  | .maximize => .minimize

namespace Sense

variable (sense : Sense)

theorem facing_maximize : facing .maximize sense = sense.opposite := by cases sense <;> rfl

theorem orient_opposite (x : α) : sense.opposite.orient x = -sense.orient x := by
  cases sense
  · rfl
  · exact (neg_neg x).symm

@[simp] theorem orient_opposite_neg (x : α) : sense.opposite.orient (-x) = sense.orient x := by
  rw [orient_opposite, orient_neg, neg_neg]

end Sense

namespace Scalar

theorem dot_neg_left (xs ws : List α) : dot (xs.map (-·)) ws = -dot xs ws := by
  induction xs generalizing ws with
  | nil => simp
  | cons x xs ih =>
    cases ws with
    | nil => simp
    | cons w ws => rw [List.map_cons, dot_cons, dot_cons, ih, neg_add, neg_mul]

theorem dot_neg_right (ws xs : List α) : dot ws (xs.map (-·)) = -dot ws xs := by
  induction ws generalizing xs with
  | nil => simp
  | cons w ws ih =>
    cases xs with
    | nil => simp
    | cons x xs => rw [List.map_cons, dot_cons, dot_cons, ih, neg_add, mul_neg]

theorem weightedRows_neg (width : ℕ) (weights : List α) (rows : List (List α)) :
    weightedRows width weights (rows.map (List.map (-·))) =
    (weightedRows width weights rows).map (-·) := by
  have hentry (row : List α) (j : ℕ) : (row.map (-·)).getD j 0 = -row.getD j 0 := by
    rw [List.getD_eq_getElem?_getD, List.getD_eq_getElem?_getD, List.getElem?_map]
    cases row[j]? <;> simp
  rw [weightedRows, weightedRows, List.map_map]
  refine List.map_congr_left fun j _ => ?_
  have hcolumn : (rows.map (List.map (-·))).map
      (fun row => row.getD j 0) = (rows.map fun row => row.getD j 0).map (-·) := by
    rw [List.map_map, List.map_map]
    exact List.map_congr_left fun row _ => hentry row j
  rw [hcolumn, dot_neg_right]
  rfl

end Scalar

namespace Statistics

theorem mean_neg (xs : List α) : mean (xs.map (-·)) = -mean xs := by
  have htotal : Scalar.total (xs.map (-·)) = -Scalar.total xs := by
    have horient : Sense.maximize.orient xs.sum = (xs.map Sense.maximize.orient).sum :=
      Sense.orient_list_sum xs
    rw [Scalar.total_eq_sum, Scalar.total_eq_sum]
    exact horient.symm
  rw [mean, mean, htotal, List.length_map, neg_div]

theorem variance_neg (xs : List α) : variance (xs.map (-·)) = variance xs := by
  have hsquare (x : α) : (-x - -mean xs) * (-x - -mean xs) = (x - mean xs) * (x - mean xs) := by
    ring
  have hsquares : (xs.map (-·)).map (fun x => (x - -mean xs) * (x - -mean xs)) =
      xs.map fun x => (x - mean xs) * (x - mean xs) := by
    rw [List.map_map]
    exact List.map_congr_left fun x _ => hsquare x
  simp only [variance]
  rw [mean_neg, hsquares, List.length_map]

theorem interval_neg [Inference α] (xs : List α) (share : α) :
    interval (xs.map (-·)) share = (interval xs share).map (Sense.turn .maximize) := by
  unfold interval
  rw [List.length_map]
  split_ifs
  · rfl
  · have herror : standardError xs.length (xs.map (-·)) = standardError xs.length xs := by
      rw [standardError, standardError, variance_neg]
    simp only [intervalOf, mean_neg, herror, Except.map, Sense.turn]
    congr 2 <;> ring

end Statistics

/-- Arithmetic looks the same if all costs are negated. -/
theorem Sense.isSymmetry_maximize [IsStrictOrderedRing α] : Sense.maximize.IsSymmetry α where
  total := fun xs => by
    rw [Scalar.total_eq_sum, Scalar.total_eq_sum]
    exact (orient_list_sum xs).symm
  dot := fun xs ws => Scalar.dot_neg_left xs ws
  magnitude := fun x => by
    rw [Scalar.abs_eq, Scalar.abs_eq]
    exact abs_neg x
  change := fun x b => by
    rw [← orient_sub, Scalar.abs_eq, Scalar.abs_eq]
    exact abs_neg (x - b)
  gap := fun x b => by
    rw [← orient_sub]
    exact congrArg Scalar.abs (neg_div_neg_eq (x - b) b)
  isZero := fun x => by
    change (decide (-x ≤ 0) && decide (0 ≤ -x)) = (decide (x ≤ 0) && decide (0 ≤ x))
    rw [Bool.and_comm, decide_eq_decide.mpr neg_nonneg, decide_eq_decide.mpr neg_nonpos]
  covers := fun low high b => by
    change (decide (-high ≤ -b) && decide (-b ≤ -low)) = (decide (low ≤ b) && decide (b ≤ high))
    rw [Bool.and_comm, decide_eq_decide.mpr neg_le_neg_iff, decide_eq_decide.mpr neg_le_neg_iff]
  interval := fun _ xs share => Statistics.interval_neg xs share

/-! ### Measures -/

def Aggregate.mirror (a : Aggregate α) : Aggregate α :=
  { value := -a.value, gradient := a.gradient.map (List.map (-·)) }

namespace RiskMeasure

theorem all_lengths (rows : List (List α)) (row : List α) :
    (rows.map (List.map (-·))).all (fun r => decide (r.length = row.length)) =
      rows.all fun r => decide (r.length = row.length) := by
  simp only [List.all_map, Function.comp_def, List.length_map]

theorem weigh_mirror (weights values : List α) (rows : List (List α)) :
    weigh weights (values.map (-·)) (rows.map (List.map (-·))) =
    (weigh weights values rows).map Aggregate.mirror := by
  unfold weigh
  rw [List.length_map, List.length_map, Scalar.dot_neg_right]
  split_ifs
  · rfl
  · rfl
  · cases rows with
    | nil => rfl
    | cons row rows =>
      have hlengths := all_lengths (row :: rows) row
      have hrows := Scalar.weightedRows_neg row.length weights (row :: rows)
      simp only [List.map_cons, List.length_map] at hlengths hrows ⊢
      rw [hlengths, hrows]
      split_ifs <;> rfl

/-- The worst outcomes are the same ones. -/
theorem worstFirst_mirror (sense : Sense) (values : List α) :
    worstFirst sense.opposite (values.map (-·)) = worstFirst sense values := by
  have hkeys : (values.map (-·)).map (fun v => -(sense.opposite.orient v)) = values.map
      fun v => -(sense.orient v) := by
    rw [List.map_map]
    exact List.map_congr_left fun v _ => congrArg Neg.neg (sense.orient_opposite_neg v)
  rw [worstFirst, worstFirst, hkeys]

theorem tailWeights_mirror (sense : Sense) (values p : List α) (a : α) :
    tailWeights sense.opposite (values.map (-·)) p a = tailWeights sense values p a := by
  rw [tailWeights, tailWeights, worstFirst_mirror, List.length_map]

theorem worstOutcome_mirror (sense : Sense) (values p : List α) (rows : List (List α)) :
    worstOutcome sense.opposite (values.map (-·)) p (rows.map (List.map (-·))) =
      (worstOutcome sense values p rows).map Aggregate.mirror := by
  unfold worstOutcome
  simp only [List.length_map, stretch?_map]
  rcases stretch? (commonLength [p.length, values.length]) p with _ | ps
  · rfl
  rcases stretch? (commonLength [p.length, values.length]) values with _ | vs
  · rfl
  have hcandidates : ps.zipWith (fun p v => if 0 < p then some (sense.opposite.orient v) else none)
      (vs.map (-·)) =
      ps.zipWith (fun p v => if 0 < p then some (sense.orient v) else none) vs := by
    rw [List.zipWith_map_right]
    simp only [Sense.orient_opposite_neg]
  simp only [Option.map_some, hcandidates, entryAt_map]
  split_ifs
  · rfl
  · cases entryAt values _ with
    | error e => rfl
    | ok value =>
      cases rows with
      | nil => rfl
      | cons row rows =>
        have hlengths := all_lengths (row :: rows) row
        simp only [List.map_cons, List.length_map] at hlengths ⊢
        change (if _ then _ else _) = Except.map Aggregate.mirror (if _ then _ else _)
        rw [hlengths]
        split_ifs
        · cases entryAt (row :: rows) _ <;> rfl
        · rfl

theorem apply_mirror (m : RiskMeasure α) (sense : Sense) (values : List α) (rows : List (List α))
    (p : Option (List α)) :
    m.apply sense.opposite (values.map (-·)) (rows.map (List.map (-·))) p =
      (m.apply sense values rows p).map Aggregate.mirror := by
  have hweigh (weights : Except (Fault α) (List α)) :
      (weights >>= fun w => weigh w (values.map (-·)) (rows.map (List.map (-·)))) =
        (weights >>= fun w => weigh w values rows).map Aggregate.mirror := by
    cases weights with
    | error e => rfl
    | ok w => exact weigh_mirror w values rows
  cases m with
  | expectation =>
    rw [apply, apply, List.length_map]
    exact weigh_mirror _ values rows
  | worstCase =>
    rw [apply, apply, List.length_map]
    exact worstOutcome_mirror sense values _ rows
  | tail a =>
    simp only [apply, List.length_map, tailWeights_mirror, hweigh]
    cases checkLevel a <;> rfl
  | mixed a l =>
    simp only [apply, List.length_map, tailWeights_mirror]
    rcases checkWeight l with e | _
    · rfl
    rcases checkLevel a with e | _
    · rfl
    cases tailWeights sense values (p.getD (uniform values.length)) a with
    | error e => rfl
    | ok q => exact hweigh (mix l _ q)

end RiskMeasure

end Recourse
