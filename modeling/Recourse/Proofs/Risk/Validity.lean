import Recourse.Proofs.Risk.Weights

/-! Every measure weighs the outcomes with the costliest weighting that it admits. What it admits
depends on the probabilities alone, so the weights found for some outcomes bound the value of any
others from below. This is what makes an aggregated cut valid. -/

namespace Recourse.RiskMeasure

open Finset

variable {α : Type} [Field α] [LinearOrder α]

def Admissible : RiskMeasure α → Prop
  | .expectation => True
  | .worstCase => True
  | .tail a => 0 < a ∧ a ≤ 1
  | .mixed a l => (0 < a ∧ a ≤ 1) ∧ 0 ≤ l ∧ l ≤ 1

/-- Whether a measure may weigh outcomes of probabilities `p` with the weights `q`. -/
def Admits : RiskMeasure α → List α → List α → Prop
  | .expectation, p, q => q = p
  | .worstCase, p, q => q.length = p.length ∧ Distribution q ∧ ∀ i, p.getD i 0 = 0 → q.getD i 0 = 0
  | .tail a, p, q => TailWeighting a p q
  | .mixed a l, p, q => ∃ r, TailWeighting a p r ∧ q = p.zipWith (fun x y => (1 - l) * x + l * y) r

variable {m : RiskMeasure α} {p q values : List α} {sense : Sense}

theorem getD_mix (l : α) {p r : List α} (h : r.length = p.length) (i : ℕ) :
    (p.zipWith (fun x y => (1 - l) * x + l * y) r).getD i 0 = (1 - l) * p.getD i 0 + l *
    r.getD i 0 := by
  simp only [List.getD_eq_getElem?_getD, List.getElem?_zipWith]
  rcases lt_or_ge i p.length with hi | hi
  · simp [hi, h ▸ hi]
  · simp [hi, h ▸ hi]

private theorem TailWeighting.eq_zero {a : α} (h : TailWeighting a p q) {i : ℕ}
    (hi : p.getD i 0 = 0) :
    q.getD i 0 = 0 := by
  refine le_antisymm ?_ (h.nonneg i)
  have := h.le i
  rwa [hi, zero_div] at this

/-- No weight is given to what cannot happen. -/
theorem Admits.eq_zero (h : m.Admits p q) {i : ℕ} (hi : p.getD i 0 = 0) : q.getD i 0 = 0 := by
  cases m with
  | expectation =>
    obtain rfl : q = p := h
    exact hi
  | worstCase => exact h.2.2 i hi
  | tail a => exact TailWeighting.eq_zero h hi
  | mixed a l =>
    obtain ⟨r, hr, rfl⟩ := h
    rw [getD_mix l hr.length, hi, TailWeighting.eq_zero hr hi]
    simp

theorem Admits.nonneg [IsStrictOrderedRing α] (hm : m.Admissible) (hp : Distribution p)
    (h : m.Admits p q) (i : ℕ) :
    0 ≤ q.getD i 0 := by
  cases m with
  | expectation =>
    obtain rfl : q = p := h
    exact hp.getD_nonneg i
  | worstCase => exact h.2.1.getD_nonneg i
  | tail a => exact h.nonneg i
  | mixed a l =>
    obtain ⟨r, hr, rfl⟩ := h
    rw [getD_mix l hr.length]
    exact add_nonneg (mul_nonneg (sub_nonneg.mpr hm.2.2) (hp.getD_nonneg i))
      (mul_nonneg hm.2.1 (hr.nonneg i))

/-! ### Weighing -/

variable {rows : List (List α)} {width : ℕ}

theorem weigh_eq {weights : List α} (hw : weights.length = values.length)
    (hrows : rows.length = values.length) (hne : values ≠ [])
    (hwidth : ∀ row ∈ rows, row.length = width) :
    weigh weights values rows =
      .ok { value := Scalar.dot weights values
            gradient := some (Scalar.weightedRows width weights rows) } := by
  cases rows with
  | nil => exact absurd (List.length_eq_zero_iff.mp hrows.symm) hne
  | cons row rows =>
    obtain rfl : row.length = width := hwidth row (by simp)
    have hall : ((row :: rows).all fun r => decide (r.length = row.length)) = true :=
      List.all_eq_true.mpr fun r hr => by simp [hwidth r hr]
    simp only [weigh, hw, hrows, ne_eq, not_true_eq_false, if_false, hall, if_true]

/-! ### The worst case -/

private theorem beats_some (x y : α) : beats (some x) (some y) = decide (y < x) := by
  simp [beats]

private theorem beats_none (x : α) : beats (some x) none = true := by
  simp [beats]

private theorem beats_self (x : Option α) : beats x x = false := by
  cases x <;> simp [beats]

private theorem beats_trans {x y z : Option α} (hxy : beats x y = false) (hyz : beats y z = false) :
    beats x z = false := by
  cases x <;> cases y <;> cases z <;> simp_all [beats]
  exact le_trans hxy hyz

private theorem beats_asymm {x y : Option α} (h : beats x y = true) : beats y x = false := by
  cases x <;> cases y <;> simp_all [beats]
  exact h.le

private theorem foldl_best (cs : List (Option α × ℕ)) (c : Option α × ℕ) :
    cs.foldl (fun best x => if beats x.1 best.1 then x else best) c ∈ c :: cs ∧
      ∀ x ∈ c :: cs, beats x.1 (cs.foldl (fun best x => if beats x.1 best.1 then x else best) c).1 =
        false := by
  induction cs generalizing c with
  | nil => simp [beats_self]
  | cons x cs ih =>
    rw [List.foldl_cons]
    split_ifs with hx
    · obtain ⟨hmem, hbest⟩ := ih x
      refine ⟨List.mem_cons_of_mem _ hmem, fun y hy => ?_⟩
      rcases List.mem_cons.mp hy with rfl | hy
      · exact beats_trans (beats_asymm hx) (hbest x (by simp))
      · exact hbest y hy
    · obtain ⟨hmem, hbest⟩ := ih c
      refine ⟨by simp only [List.mem_cons] at hmem ⊢; tauto, fun y hy => ?_⟩
      rcases List.mem_cons.mp hy with rfl | hy
      · exact hbest y (by simp)
      · rcases List.mem_cons.mp hy with rfl | hy
        · exact beats_trans (by simpa using hx) (hbest c (by simp))
        · exact hbest y (by simp [hy])

private theorem worstPosition_spec {candidates : List (Option α)} (hne : candidates ≠ []) :
    ∃ x, candidates[worstPosition candidates]? = some x ∧ ∀ y ∈ candidates, beats y x = false := by
  obtain ⟨c, cs, rfl⟩ := List.exists_cons_of_ne_nil hne
  obtain ⟨hmem, hbest⟩ := foldl_best (cs.zipIdx 1) (c, 0)
  refine ⟨_, List.mem_zipIdx_iff_getElem?.mp hmem, fun y hy => ?_⟩
  obtain ⟨i, hi, rfl⟩ := List.getElem_of_mem hy
  have hnumbered : ((c :: cs)[i], i) ∈ (c :: cs).zipIdx :=
    List.mem_zipIdx_iff_getElem?.mpr (List.getElem?_eq_getElem hi)
  exact hbest _ hnumbered

theorem Distribution.exists_pos (hp : Distribution p) : ∃ x ∈ p, 0 < x := by
  by_contra hnone
  have hzero : p.sum = 0 := List.sum_eq_zero fun x hx =>
    le_antisymm (not_lt.mp fun h => hnone ⟨x, hx, h⟩) (hp.nonneg x hx)
  exact zero_ne_one (hzero.symm.trans hp.sum)

def candidates (sense : Sense) (p values : List α) : List (Option α) :=
  p.zipWith (fun p v => if 0 < p then some (sense.orient v) else none) values

/-- The worst case is an outcome of positive probability, and none of those is worse. -/
theorem worstOutcome_spec (sense : Sense) (hp : ∃ x ∈ p, 0 < x) (hlen : p.length = values.length)
    (hrows : rows.length = values.length) (hwidth : ∀ row ∈ rows, row.length = width) :
    ∃ i < values.length, i = worstPosition (candidates sense p values) ∧ 0 < p.getD i 0 ∧
      worstOutcome sense values p rows =
        .ok { value := values.getD i 0, gradient := some (rows.getD i []) } ∧
      ∀ j < values.length, 0 < p.getD j 0 →
        sense.orient (values.getD j 0) ≤ sense.orient (values.getD i 0) := by
  set candidates := candidates sense p values with hcandidates
  have hget {j : ℕ} (hj : j < values.length) : candidates[j]? =
      some (if 0 < p.getD j 0 then some (sense.orient (values.getD j 0)) else none) := by
    simp [hcandidates, RiskMeasure.candidates, hj, hlen]
  obtain ⟨x, hx, hpos⟩ := hp
  obtain ⟨k, hk, rfl⟩ := List.getElem_of_mem hx
  have hne : candidates ≠ [] := by
    rintro h
    simpa [h] using hget (hlen ▸ hk)
  obtain ⟨best, hbest, hworst⟩ := worstPosition_spec hne
  have hi : worstPosition candidates < values.length := by
    have := (List.getElem?_eq_some_iff.mp hbest).1
    simpa [hcandidates, RiskMeasure.candidates, hlen] using this
  have hworst' {j : ℕ} (hj : j < values.length) (hj' : 0 < p.getD j 0) :
      beats (some (sense.orient (values.getD j 0))) best = false := by
    refine hworst _ (List.mem_of_getElem? (i := j) ?_)
    rw [hget hj, if_pos hj']
  obtain rfl := Option.some.inj ((hget hi).symm.trans hbest)
  have hpos' : 0 < p.getD (worstPosition candidates) 0 := by
    by_contra hzero
    have := hworst' (hlen ▸ hk) (by simpa [hk] using hpos)
    rw [if_neg hzero, beats_none] at this
    exact Bool.noConfusion this
  rw [if_pos hpos'] at hworst'
  refine ⟨worstPosition candidates, hi, rfl, hpos', ?_, fun j hj hj' => ?_⟩
  · have hn : commonLength [p.length, values.length] = values.length :=
      commonLength_eq (by simp) (by simp [hlen])
    have hvalues : values.length ≠ 0 := by omega
    obtain ⟨row, rest, rfl⟩ := List.exists_cons_of_length_pos (hrows ▸ Nat.pos_of_ne_zero hvalues)
    have hi' : worstPosition candidates < (row :: rest).length := hrows.symm ▸ hi
    have hall : ((row :: rest).all fun r => decide (r.length = row.length)) = true :=
      List.all_eq_true.mpr fun r hr => by simp [hwidth r hr, hwidth row (by simp)]
    rw [RiskMeasure.candidates] at hcandidates
    simp only [worstOutcome, hn, stretch?_eq hlen, stretch?_eq (rfl : values.length = _),
      hvalues, if_false,
      ← hcandidates, hall, if_true, entryAt, List.getElem?_eq_getElem hi,
      List.getElem?_eq_getElem hi']
    simp only [List.getD_eq_getElem?_getD, List.getElem?_eq_getElem hi,
      List.getElem?_eq_getElem hi',
      Option.getD_some]
    rfl
  · simpa only [beats_some, decide_eq_false_iff_not, not_lt] using hworst' hj hj'

/-! ### All measures -/

def pick (n i : ℕ) : List α := (List.range n).map fun j => if j = i then 1 else 0

theorem getD_pick {n i : ℕ} (hi : i < n) (j : ℕ) :
    (pick n i : List α).getD j 0 = if j = i then 1 else 0 := by
  rw [pick, List.getD_eq_getElem?_getD, List.getElem?_map]
  rcases lt_or_ge j n with hj | hj
  · rw [List.getElem?_range hj]
    rfl
  · rw [List.getElem?_eq_none (by simpa using hj), if_neg (by omega)]
    rfl

theorem dot_pick {n i : ℕ} (hi : i < n) (hn : values.length = n) :
    Scalar.dot (pick n i) values = values.getD i 0 := by
  rw [Scalar.dot_eq_sum_range (n := n) (by simp [hn])]
  simp only [getD_pick hi, ite_mul, one_mul, zero_mul]
  rw [sum_ite_eq' (range n) i, if_pos (mem_range.mpr hi)]

theorem dot_mix (l : α) {p r : List α} (h : r.length = p.length) (values : List α) :
    Scalar.dot (p.zipWith (fun x y => (1 - l) * x + l * y) r) values =
      (1 - l) * Scalar.dot p values + l * Scalar.dot r values := by
  rw [Scalar.dot_eq_sum_range (min_le_right _ _), Scalar.dot_eq_sum_range (min_le_right _ _),
    Scalar.dot_eq_sum_range (min_le_right _ _), mul_sum, mul_sum, ← sum_add_distrib]
  refine sum_congr rfl fun i _ => ?_
  rw [getD_mix l h]
  ring

theorem mix_eq (l : α) {p r : List α} (h : r.length = p.length) :
    mix l p r = .ok (p.zipWith (fun x y => (1 - l) * x + l * y) r) := by
  have hn : commonLength [p.length, r.length] = p.length := commonLength_eq (by simp) (by simp [h])
  simp only [mix, hn, stretch?_eq h, stretch?_eq (rfl : p.length = _)]

variable [IsStrictOrderedRing α]

private theorem orient_dot_le_of_worst (hp : Distribution p) {r : List α}
    (hr : worstCase.Admits p r) (hlen : p.length = values.length) {worst : α}
    (h : ∀ j < values.length, 0 < p.getD j 0 → sense.orient (values.getD j 0) ≤ worst) :
    sense.orient (Scalar.dot r values) ≤ worst := by
  obtain ⟨hrlen, hrdist, hrzero⟩ := hr
  calc sense.orient (Scalar.dot r values)
      = ∑ j ∈ range values.length, r.getD j 0 * sense.orient (values.getD j 0) := orient_dot_eq r
    _ ≤ ∑ j ∈ range values.length, r.getD j 0 * worst := by
        refine sum_le_sum fun j hj => ?_
        rcases (hp.getD_nonneg j).eq_or_lt with hzero | hpos
        · rw [hrzero j hzero.symm, zero_mul, zero_mul]
        · exact mul_le_mul_of_nonneg_left (h j (mem_range.mp hj) hpos) (hrdist.getD_nonneg j)
    _ = worst := by
        rw [← sum_mul, ← Scalar.sum_eq_sum_range (hrlen.trans hlen).le, hrdist.sum, one_mul]

theorem pick_distribution {n i : ℕ} (hi : i < n) : Distribution (pick n i : List α) where
  nonneg := by
    intro x hx
    obtain ⟨j, -, rfl⟩ := List.mem_map.mp hx
    split_ifs
    · exact zero_le_one
    · exact le_rfl
  sum := by
    rw [Scalar.sum_eq_sum_range (n := n) (by simp [pick])]
    simp only [getD_pick hi]
    rw [sum_ite_eq' (range n) i, if_pos (mem_range.mpr hi)]

/-- What a measure answers is what the weights `q` make of the outcomes, and of all weights that it
admits these cost the most. -/
structure Weighs (m : RiskMeasure α) (sense : Sense) (p values : List α) (rows : List (List α))
    (width : ℕ) (q g : List α) : Prop where
  run : m.apply sense values rows (some p) = .ok
    { value := Scalar.dot q values, gradient := some g }
  admits : m.Admits p q
  length : g.length = width
  gradient : ∀ d : List α, d.length = width →
    Scalar.dot g d = ∑ i ∈ range values.length, q.getD i 0 * Scalar.dot (rows.getD i []) d
  greatest : ∀ r, m.Admits p r →
    sense.orient (Scalar.dot r values) ≤ sense.orient (Scalar.dot q values)

omit [IsStrictOrderedRing α] in
theorem weighs_of_weigh (hq : q.length = values.length)
    (hrun : m.apply sense values rows (some p) = .ok
      { value := Scalar.dot q values, gradient := some (Scalar.weightedRows width q rows) })
    (hadmits : m.Admits p q)
    (hbest : ∀ r, m.Admits p r →
      sense.orient (Scalar.dot r values) ≤ sense.orient (Scalar.dot q values)) :
    m.Weighs sense p values rows width q (Scalar.weightedRows width q rows) where
  run := hrun
  admits := hadmits
  length := by simp [Scalar.weightedRows]
  gradient := by
    rintro d rfl
    exact Scalar.dot_weightedRows hq
  greatest := hbest

theorem worstCase_weighs (hp : Distribution p) (hlen : p.length = values.length)
    (hrows : rows.length = values.length) (hwidth : ∀ row ∈ rows, row.length = width) :
    ∃ q g, worstCase.Weighs sense p values rows width q g := by
  obtain ⟨i, hi, -, hpos, hrun, hworst⟩ := worstOutcome_spec sense hp.exists_pos hlen hrows hwidth
  refine ⟨pick values.length i, rows.getD i [], ?_, ?_, ?_, ?_, ?_⟩
  · rw [dot_pick hi rfl]
    exact hrun
  · refine ⟨by simp [pick, hlen], pick_distribution hi, fun j hj => ?_⟩
    rw [getD_pick hi, if_neg]
    rintro rfl
    exact hpos.ne' hj
  · rw [List.getD_eq_getElem?_getD, List.getElem?_eq_getElem (hrows.symm ▸ hi)]
    exact hwidth _ (List.getElem_mem _)
  · intro d _
    simp only [getD_pick hi, ite_mul, one_mul, zero_mul]
    rw [sum_ite_eq' (range values.length) i, if_pos (mem_range.mpr hi)]
  · intro r hr
    rw [dot_pick hi rfl]
    exact orient_dot_le_of_worst hp hr hlen hworst

/-- A measure gives the outcomes weights that it admits, and none that it admits have a larger
cost. -/
theorem apply_spec (sense : Sense) (hm : m.Admissible) (hp : Distribution p)
    (hlen : p.length = values.length) (hrows : rows.length = values.length)
    (hwidth : ∀ row ∈ rows, row.length = width) :
    ∃ q g, m.Weighs sense p values rows width q g := by
  have hne : values ≠ [] := by
    rintro rfl
    obtain ⟨x, hx, -⟩ := hp.exists_pos
    simp_all
  cases m with
  | expectation =>
    refine ⟨p, _, weighs_of_weigh hlen (weigh_eq hlen hrows hne hwidth) rfl fun r hr => ?_⟩
    rw [show r = p from hr]
  | worstCase => exact worstCase_weighs hp hlen hrows hwidth
  | tail a =>
    obtain ⟨q, hrun, hq, hbest⟩ := tailWeights_spec sense hp hlen hm.1 hm.2
    have hq' := hq.length.trans hlen
    refine ⟨q, _, weighs_of_weigh hq' ?_ hq hbest⟩
    simp [apply, checkLevel, hm.1, hm.2, hrun, weigh_eq hq' hrows hne hwidth, bind, Except.bind]
  | mixed a l =>
    obtain ⟨q, hrun, hq, hbest⟩ := tailWeights_spec sense hp hlen hm.1.1 hm.1.2
    have hq' : (p.zipWith (fun x y => (1 - l) * x + l * y) q).length = values.length := by
      simp [hq.length, hlen]
    refine ⟨_, _, weighs_of_weigh hq' ?_ ⟨q, hq, rfl⟩ ?_⟩
    · simp [apply, checkLevel, checkWeight, hm.1.1, hm.1.2, hm.2.1, hm.2.2, hrun,
        mix_eq l hq.length, weigh_eq hq' hrows hne hwidth, bind, Except.bind]
    · rintro _ ⟨r, hr, rfl⟩
      rw [dot_mix l hr.length, dot_mix l hq.length, Sense.orient_add, Sense.orient_add,
        Sense.orient_mul, Sense.orient_mul, Sense.orient_mul]
      exact add_le_add le_rfl (mul_le_mul_of_nonneg_left (hbest r hr) hm.2.1)

/-- The gradient of a measure supports its value: outcomes that are no better than the first ones
moved along a displacement have no better value. -/
theorem apply_supports (hm : m.Admissible) (hp : Distribution p) {values' : List α}
    {rows' : List (List α)} {width' : ℕ} {d : List α} (hlen : p.length = values.length)
    (hlen' : p.length = values'.length)
    (hrows : rows.length = values.length) (hwidth : ∀ row ∈ rows, row.length = d.length)
    (hrows' : rows'.length = values'.length) (hwidth' : ∀ row ∈ rows', row.length = width')
    (hle : ∀ i < values.length, 0 < p.getD i 0 →
      sense.orient (values.getD i 0 + Scalar.dot (rows.getD i []) d) ≤ sense.orient
      (values'.getD i 0)) :
    ∃ a g a', m.apply sense values rows (some p) = .ok a ∧ a.gradient = some g ∧
      g.length = d.length ∧
      m.apply sense values' rows' (some p) = .ok a' ∧
      sense.orient (a.value + Scalar.dot g d) ≤ sense.orient a'.value := by
  obtain ⟨q, g, hq⟩ := apply_spec sense hm hp hlen hrows hwidth
  obtain ⟨q', g', hq'⟩ := apply_spec sense hm hp hlen' hrows' hwidth'
  refine ⟨_, g, _, hq.run, rfl, hq.length, hq'.run, ?_⟩
  have hmoved : Scalar.dot q values + Scalar.dot g d = ∑ i ∈ range values.length,
      q.getD i 0 * (values.getD i 0 + Scalar.dot (rows.getD i []) d) := by
    rw [hq.gradient d rfl, Scalar.dot_eq_sum_range (n := values.length) (min_le_right _ _),
      ← sum_add_distrib]
    simp only [mul_add]
  calc sense.orient (Scalar.dot q values + Scalar.dot g d)
      = ∑ i ∈ range values.length,
          q.getD i 0 * sense.orient (values.getD i 0 + Scalar.dot (rows.getD i []) d) := by
        rw [hmoved, Sense.orient_sum]
        simp only [Sense.orient_mul]
    _ ≤ ∑ i ∈ range values.length, q.getD i 0 * sense.orient (values'.getD i 0) := by
        refine sum_le_sum fun i hi => ?_
        -- an outcome that cannot happen has no weight, and nothing is known about it
        rcases (hp.getD_nonneg i).eq_or_lt with hzero | hpos
        · rw [hq.admits.eq_zero hzero.symm, zero_mul, zero_mul]
        · exact mul_le_mul_of_nonneg_left (hle i (mem_range.mp hi) hpos)
            (hq.admits.nonneg hm hp i)
    _ = sense.orient (Scalar.dot q values') := by
        rw [orient_dot_eq, ← hlen', hlen]
    _ ≤ sense.orient (Scalar.dot q' values') := hq'.greatest q hq.admits

omit [IsStrictOrderedRing α] in
/-- A measure that answers has parameters within their ranges. -/
theorem admissible_of_apply {p : Option (List α)} {a : Aggregate α}
    (h : m.apply sense values rows p = .ok a) :
    m.Admissible := by
  have hlevel {x : α} (h : checkLevel x = .ok ()) : 0 < x ∧ x ≤ 1 := by
    simpa [checkLevel] using h
  cases m with
  | expectation => trivial
  | worstCase => trivial
  | tail x =>
    obtain ⟨_, hx, -⟩ := ok_of_bind h
    exact hlevel hx
  | mixed x l =>
    obtain ⟨_, hl, h⟩ := ok_of_bind h
    obtain ⟨_, hx, -⟩ := ok_of_bind h
    exact ⟨hlevel hx, by simpa [checkWeight] using hl⟩

theorem uniform_distribution {n : ℕ} (hn : n ≠ 0) : Distribution (uniform n : List α) where
  nonneg := by
    intro x hx
    rw [List.eq_of_mem_replicate hx, Scalar.ratio_eq]
    positivity
  sum := by
    have : (n : α) ≠ 0 := Nat.cast_ne_zero.mpr hn
    rw [uniform, List.sum_replicate, Scalar.ratio_eq, nsmul_eq_mul, Nat.cast_one,
      mul_one_div_cancel this]

/-- Every measure yields a valid cut, with given probabilities or with equal ones. -/
theorem apply_valid (hm : m.Admissible) {p : Option (List α)} (hne : values ≠ [])
    (hp : ∀ w, p = some w → Distribution w ∧ w.length = values.length)
    {values' : List α} {rows' : List (List α)} {width' : ℕ} {d : List α}
    (hrows : rows.length = values.length) (hwidth : ∀ row ∈ rows, row.length = d.length)
    (hlen' : values'.length = values.length) (hrows' : rows'.length = values'.length)
    (hwidth' : ∀ row ∈ rows', row.length = width')
    (hle : ∀ i < values.length, 0 < (p.getD (uniform values.length)).getD i 0 →
      sense.orient (values.getD i 0 + Scalar.dot (rows.getD i []) d) ≤ sense.orient
      (values'.getD i 0)) :
    ∃ a g a', m.apply sense values rows p = .ok a ∧ a.gradient = some g ∧ g.length = d.length ∧
      m.apply sense values' rows' p = .ok a' ∧
      sense.orient (a.value + Scalar.dot g d) ≤ sense.orient a'.value := by
  cases p with
  | some w =>
    obtain ⟨hw, hlen⟩ := hp w rfl
    exact apply_supports hm hw hlen (hlen.trans hlen'.symm) hrows hwidth hrows' hwidth' hle
  | none =>
    have hu := uniform_distribution (α := α) (n := values.length) (by simpa using hne)
    have hlen : (uniform values.length : List α).length = values.length := List.length_replicate
    obtain ⟨a, g, a', h, hg, hglen, h', hsupport⟩ :=
      apply_supports hm hu hlen (hlen.trans hlen'.symm) hrows hwidth hrows' hwidth' hle
    rw [← hlen'] at h'
    exact ⟨a, g, a', h, hg, hglen, h', hsupport⟩

/-- Three outcomes, of which the first one cannot happen and the others change places when they
move. -/
theorem apply_valid_crossing :
    ∃ a g a', (mixed (1 / 2) (1 / 3)).apply .maximize [5, 2, 3] [[0], [3], [1]]
      (some [0, 1 / 4, 3 / 4]) = .ok a ∧
      a.gradient = some g ∧ g.length = 1 ∧
      (mixed (1 / 2) (1 / 3)).apply .maximize [9, 5, 4] [[], [], []]
      (some [0, 1 / 4, 3 / 4]) = .ok a' ∧
      Sense.maximize.orient (a.value + Scalar.dot g [1]) ≤ Sense.maximize.orient
        (a'.value : ℚ) := by
  have hempty : ∀ row ∈ ([[], [], []] : List (List ℚ)), row.length = 0 := by simp
  refine apply_valid (d := [1]) (by norm_num [Admissible]) (by simp) ?_ rfl ?_ rfl rfl hempty ?_
  · intro w hw
    obtain rfl := Option.some.inj hw
    exact ⟨⟨by decide +kernel, by decide +kernel⟩, rfl⟩
  · simp
  · decide +kernel

end Recourse.RiskMeasure
