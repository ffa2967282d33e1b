import Recourse.Proofs.Run
import Recourse.Proofs.Scalar
import Recourse.Risk.Measure

/-! The weights of average value at risk. One unit of probability is filled into the outcomes, the
worst first, each up to its capacity. Among all weightings within the capacities that spend the
unit, this one has the largest cost: what another weighting spends on a later outcome, this one
spends on an earlier and no better one. -/

namespace Recourse.RiskMeasure

open Finset

variable {α : Type} [Field α] [LinearOrder α]

/-- Fill positions in an order, each up to its capacity, until an amount is used up. -/
def fill (cap : ℕ → α) : List ℕ → α → ℕ → α
  | [], _ => fun _ => 0
  | i :: order, amount =>
    Function.update (fill cap order (amount - min (cap i) amount)) i (min (cap i) amount)

variable {cap v r : ℕ → α} {order : List ℕ} {amount θ : α}

/-- A sum of a filled function over its own order: the head is filled first. -/
private theorem sum_fill_cons {i : ℕ} (h : i ∉ order) (f : ℕ → α → α) :
    ((i :: order).map fun j => f j (fill cap (i :: order) amount j)).sum =
      f i (min (cap i) amount) +
        (order.map fun j => f j (fill cap order (amount - min (cap i) amount) j)).sum := by
  have hne : ∀ j ∈ order, j ≠ i := fun j hj hji => h (hji ▸ hj)
  rw [List.map_cons, List.sum_cons, fill, Function.update_self]
  congr 2
  refine List.map_congr_left fun j hj => ?_
  rw [Function.update_of_ne (hne j hj)]

theorem fill_le (hcap : ∀ i, 0 ≤ cap i) (i : ℕ) : fill cap order amount i ≤ cap i := by
  induction order generalizing amount with
  | nil => exact hcap i
  | cons j order ih =>
    rw [fill, Function.update_apply]
    split_ifs with hij
    · rw [hij]
      exact min_le_left _ _
    · exact ih

theorem fill_zero (hcap : ∀ i, 0 ≤ cap i) (i : ℕ) : fill cap order 0 i = 0 := by
  induction order with
  | nil => rfl
  | cons j order ih =>
    rw [fill, min_eq_right (hcap j), sub_zero, Function.update_apply]
    split_ifs
    · rfl
    · exact ih

variable [IsStrictOrderedRing α]

theorem fill_nonneg (hcap : ∀ i, 0 ≤ cap i) (h : 0 ≤ amount) (i : ℕ) :
    0 ≤ fill cap order amount i := by
  induction order generalizing amount with
  | nil => exact le_rfl
  | cons j order ih =>
    rw [fill, Function.update_apply]
    split_ifs
    · exact le_min (hcap j) h
    · exact ih (sub_nonneg.mpr (min_le_right _ _))

private theorem sub_min_le {c x s : α} (hs : 0 ≤ s) (h : x ≤ c + s) : x - min c x ≤ s := by
  rcases min_cases c x with ⟨hmin, -⟩ | ⟨hmin, -⟩ <;> rw [hmin] <;> linarith

theorem sum_fill (hcap : ∀ i, 0 ≤ cap i) (horder : order.Nodup)
    (hamount : amount ≤ (order.map cap).sum) (h : 0 ≤ amount) :
    (order.map (fill cap order amount)).sum = amount := by
  induction order generalizing amount with
  | nil => exact (le_antisymm hamount h).symm
  | cons i order ih =>
    rw [List.nodup_cons] at horder
    rw [List.map_cons, List.sum_cons] at hamount
    have hnonneg : 0 ≤ (order.map cap).sum := List.sum_nonneg (by simpa using fun j _ => hcap j)
    have hrest : amount - min (cap i) amount ≤ (order.map cap).sum := sub_min_le hnonneg hamount
    rw [sum_fill_cons horder.1 fun _ x => x, ih horder.2 hrest (sub_nonneg.mpr (min_le_right _ _))]
    exact add_sub_cancel _ _

/-- Filling the worst outcomes first is optimal. Another weighting within the capacities may spend
more; what it spends more counts with a value that none exceeds. -/
theorem sum_mul_le_sum_fill (horder : order.Nodup) (hworst : order.Pairwise fun i j => v j ≤ v i)
    (hθ : ∀ i ∈ order, v i ≤ θ) (hr : ∀ i ∈ order, 0 ≤ r i ∧ r i ≤ cap i) (h : 0 ≤ amount)
    (hspent : amount ≤ (order.map r).sum) :
    (order.map fun i => r i * v i).sum ≤
      (order.map fun i => fill cap order amount i * v i).sum +
      ((order.map r).sum - amount) * θ := by
  induction order generalizing amount θ with
  | nil =>
    have : amount = 0 := le_antisymm hspent h
    simp [this]
  | cons i order ih =>
    rw [List.nodup_cons] at horder
    rw [List.pairwise_cons] at hworst
    rw [List.map_cons, List.sum_cons] at hspent
    have htail : ∀ j ∈ order, 0 ≤ r j ∧ r j ≤ cap j := fun j hj => hr j (by simp [hj])
    have hnonneg : 0 ≤ (order.map r).sum :=
      List.sum_nonneg (by simpa using fun j hj => (htail j hj).1)
    have hleft : amount - min (cap i) amount ≤ (order.map r).sum :=
      sub_min_le hnonneg (hspent.trans (add_le_add_left (hr i (by simp)).2 _))
    have hrest := ih horder.2 hworst.2 hworst.1 htail (sub_nonneg.mpr (min_le_right _ _)) hleft
    rw [sum_fill_cons horder.1 fun j x => x * v j]
    simp only [List.map_cons, List.sum_cons]
    have hhead : (r i + (order.map r).sum - amount) * v i ≤
        (r i + (order.map r).sum - amount) * θ :=
      mul_le_mul_of_nonneg_left (hθ i (by simp)) (sub_nonneg.mpr hspent)
    linarith

/-! ### The weights of the program -/

variable {p : List α} {a : α}

theorem spend_eq (hcap : ∀ i, 0 ≤ p.getD i 0 / a) (horder : ∀ i ∈ order, i < p.length)
    (h : 0 ≤ amount) :
    ∃ spent, spend p a order amount = .ok spent ∧
      weightAt spent = fill (fun i => p.getD i 0 / a) order amount := by
  induction order generalizing amount with
  | nil => exact ⟨[], rfl, rfl⟩
  | cons i order ih =>
    by_cases hzero : amount ≤ 0
    · obtain rfl : amount = 0 := le_antisymm hzero h
      refine ⟨[], by simp [spend], funext fun j => (fill_zero hcap j).symm⟩
    · have hi := horder i (by simp)
      have hget : p.getD i 0 = p[i] := by simp [hi]
      obtain ⟨spent, hspent, hweight⟩ := ih (fun j hj => horder j (by simp [hj]))
        (sub_nonneg.mpr (min_le_right (p.getD i 0 / a) amount))
      refine ⟨(i, min (p.getD i 0 / a) amount) :: spent, ?_, ?_⟩
      · rw [hget] at hspent ⊢
        simp [spend, hzero, entryAt, hi, Scalar.least_eq_min, hspent, bind, Except.bind, pure,
          Except.pure]
      · funext j
        rw [fill, ← hweight, Function.update_apply]
        by_cases hij : j = i
        · simp [weightAt, hij]
        · simp [weightAt, List.lookup_cons, hij, beq_false_of_ne hij]

/-- Probabilities: not negative, and one in total. -/
structure Distribution (p : List α) : Prop where
  nonneg : ∀ x ∈ p, 0 ≤ x
  sum : p.sum = 1

/-- Weights that spend one unit within the probabilities inflated by `1 / a`. -/
structure TailWeighting (a : α) (p q : List α) : Prop where
  length : q.length = p.length
  nonneg : ∀ i, 0 ≤ q.getD i 0
  le : ∀ i, q.getD i 0 ≤ p.getD i 0 / a
  sum : q.sum = 1

omit [IsStrictOrderedRing α] in
theorem Distribution.getD_nonneg (h : Distribution p) (i : ℕ) : 0 ≤ p.getD i 0 := by
  rw [List.getD_eq_getElem?_getD]
  rcases hi : p[i]? with _ | x
  · exact le_rfl
  · exact h.nonneg x (List.mem_of_getElem? hi)

section Order

variable {sense : Sense} {values : List α}

omit [IsStrictOrderedRing α] in
theorem worstFirst_perm : (worstFirst sense values).Perm (List.range values.length) := by
  have h := (List.mergeSort_perm (values.map fun v => -(sense.orient v)).zipIdx
    fun x y => !precedes y.1 x.1).map (·.2)
  rwa [List.zipIdx_map_snd, List.length_map, ← List.range_eq_range'] at h

omit [IsStrictOrderedRing α] in
private theorem key_eq {x : α × ℕ} (hx : x ∈ (values.map fun v => -(sense.orient v)).zipIdx) :
    x.1 = -(sense.orient (values.getD x.2 0)) := by
  rw [List.mem_zipIdx_iff_getElem?, List.getElem?_map] at hx
  obtain ⟨v, hv, hvx⟩ := Option.map_eq_some_iff.mp hx
  rw [List.getD_eq_getElem?_getD, hv, ← hvx]
  rfl

omit [Field α] [LinearOrder α] [IsStrictOrderedRing α] in
private theorem number_eq {keys : List α} {x : (α × ℕ) × ℕ} (hx : x ∈ keys.zipIdx.zipIdx) :
    x.1 ∈ keys.zipIdx ∧ x.2 = x.1.2 := by
  rw [List.mem_zipIdx_iff_getElem?] at hx
  refine ⟨List.mem_of_getElem? hx, ?_⟩
  rw [List.getElem?_zipIdx] at hx
  obtain ⟨v, -, hv⟩ := Option.map_eq_some_iff.mp hx
  simp [← hv]

/-- Of two positions in the order, the later one has a smaller cost, or the same cost and comes
later among the outcomes. -/
theorem worstFirst_stable : (worstFirst sense values).Pairwise fun i j =>
    sense.orient (values.getD j 0) < sense.orient (values.getD i 0) ∨
      sense.orient (values.getD j 0) = sense.orient (values.getD i 0) ∧ i ≤ j := by
  have htrans : ∀ x y z : α × ℕ,
      (!precedes y.1 x.1) = true → (!precedes z.1 y.1) = true → (!precedes z.1 x.1) = true := by
    intro x y z
    simpa [precedes] using fun hxy hyz => le_trans hxy hyz
  have htotal : ∀ x y : α × ℕ, (!precedes y.1 x.1 || !precedes x.1 y.1) = true := by
    intro x y
    simpa [precedes] using le_total x.1 y.1
  -- a stable sort sorts what is numbered, and the positions are numbers already
  rw [worstFirst, ← List.mergeSort_zipIdx, List.map_map, List.pairwise_map]
  refine (List.pairwise_mergeSort (List.zipIdxLE_trans htrans)
    (List.zipIdxLE_total htotal) _).imp_of_mem
    fun {x y} hx hy hxy => ?_
  obtain ⟨hxmem, hxnumber⟩ := number_eq (List.mem_mergeSort.mp hx)
  obtain ⟨hymem, hynumber⟩ := number_eq (List.mem_mergeSort.mp hy)
  obtain ⟨hle, hnext⟩ : x.1.1 ≤ y.1.1 ∧ (x.1.1 < y.1.1 ∨ x.2 ≤ y.2) := by
    simpa [List.zipIdxLE, precedes] using hxy
  simp only [Function.comp_apply]
  rw [← neg_lt_neg_iff, ← neg_inj (a := sense.orient _), ← key_eq hxmem, ← key_eq hymem, ← hxnumber,
    ← hynumber]
  rcases hle.lt_or_eq with hlt | heq
  · exact .inl hlt
  · exact .inr ⟨heq.symm, hnext.resolve_left heq.not_lt⟩

theorem worstFirst_pairwise : (worstFirst sense values).Pairwise fun i j =>
    sense.orient (values.getD j 0) ≤ sense.orient (values.getD i 0) :=
  worstFirst_stable.imp fun h => h.elim le_of_lt fun heq => heq.1.le

omit [IsStrictOrderedRing α] in
private theorem sum_worstFirst (sense : Sense) (f : ℕ → α) :
    ((worstFirst sense values).map f).sum = ∑ i ∈ range values.length, f i := by
  rw [(worstFirst_perm.map f).sum_eq, ← List.sum_toFinset f List.nodup_range, List.toFinset_range]

omit [IsStrictOrderedRing α] in
theorem orient_dot_eq (q : List α) : sense.orient (Scalar.dot q values) =
    ∑ i ∈ range values.length, q.getD i 0 * sense.orient (values.getD i 0) := by
  rw [Scalar.dot_eq_sum_range (min_le_right _ _), Sense.orient_sum]
  simp only [Sense.orient_mul]

theorem tailWeights_eq (sense : Sense) (hp : ∀ i, 0 ≤ p.getD i 0) (hlen : p.length = values.length)
    (ha : 0 < a) :
    tailWeights sense values p a =
      .ok ((List.range values.length).map
        (fill (fun i => p.getD i 0 / a) (worstFirst sense values) 1)) := by
  have hcap : ∀ i, 0 ≤ p.getD i 0 / a := fun i => div_nonneg (hp i) ha.le
  have horder : ∀ i ∈ worstFirst sense values, i < p.length := fun i hi => by
    simpa [hlen] using worstFirst_perm.mem_iff.mp hi
  obtain ⟨spent, hspent, hweight⟩ := spend_eq hcap horder zero_le_one
  simp [tailWeights, weightsInOrder, hspent, hweight, bind, Except.bind, pure, Except.pure]

/-- The weights of average value at risk exist, and no other admissible ones have a larger cost. -/
theorem tailWeights_spec (sense : Sense) (hp : Distribution p) (hlen : p.length = values.length)
    (ha : 0 < a) (ha' : a ≤ 1) : ∃ q, tailWeights sense values p a = .ok q ∧ TailWeighting a p q ∧
      ∀ r, TailWeighting a p r → sense.orient (Scalar.dot r values) ≤ sense.orient
        (Scalar.dot q values) := by
  have hcap : ∀ i, 0 ≤ p.getD i 0 / a := fun i => div_nonneg (hp.getD_nonneg i) ha.le
  have hnodup : (worstFirst sense values).Nodup := worstFirst_perm.nodup_iff.mpr List.nodup_range
  have hrun := tailWeights_eq sense hp.getD_nonneg hlen ha
  set q := (List.range values.length).map
    (fill (fun i => p.getD i 0 / a) (worstFirst sense values) 1) with hq
  have hget (i : ℕ) : q.getD i 0 = fill (fun i => p.getD i 0 / a)
      (worstFirst sense values) 1 i := by
    rw [hq, List.getD_eq_getElem?_getD, List.getElem?_map]
    rcases lt_or_ge i values.length with hi | hi
    · rw [List.getElem?_range hi]
      rfl
    · -- beyond the outcomes there is no capacity
      have hcap0 : p.getD i 0 / a = 0 := by simp [hlen ▸ hi]
      rw [List.getElem?_eq_none (by simpa using hi)]
      exact le_antisymm (fill_nonneg hcap zero_le_one i) ((fill_le hcap i).trans_eq hcap0)
  have hsum : ∑ i ∈ range values.length, p.getD i 0 = 1 := by
    rw [← Scalar.sum_eq_sum_range hlen.le, hp.sum]
  have htotal : q.sum = 1 := by
    rw [Scalar.sum_eq_sum_range (n := values.length) (by simp [hq])]
    simp only [hget]
    rw [← sum_worstFirst sense]
    refine sum_fill hcap hnodup ?_ zero_le_one
    rw [sum_worstFirst, ← sum_div, hsum]
    exact (one_le_div ha).mpr ha'
  refine ⟨q, hrun, ⟨by simp [hq, hlen], fun i => ?_, fun i => ?_, htotal⟩, fun r hr => ?_⟩
  · rw [hget]
    exact fill_nonneg hcap zero_le_one i
  · rw [hget]
    exact fill_le hcap i
  · rw [orient_dot_eq, orient_dot_eq]
    simp only [hget]
    have hr1 : ((worstFirst sense values).map fun i => r.getD i 0).sum = 1 := by
      rw [sum_worstFirst, ← Scalar.sum_eq_sum_range (by rw [hr.length, hlen]), hr.sum]
    obtain ⟨θ, hθ⟩ := ((worstFirst sense values).map fun i =>
      sense.orient (values.getD i 0)).finite_toSet.bddAbove
    have hbound : ∀ i ∈ worstFirst sense values, sense.orient (values.getD i 0) ≤ θ := fun i hi =>
      hθ (List.mem_map.mpr ⟨i, hi, rfl⟩)
    have hle := sum_mul_le_sum_fill hnodup worstFirst_pairwise hbound
      (fun i _ => ⟨hr.nonneg i, hr.le i⟩) zero_le_one hr1.ge
    rwa [hr1, sub_self, zero_mul, add_zero, sum_worstFirst, sum_worstFirst] at hle

end Order

end Recourse.RiskMeasure
