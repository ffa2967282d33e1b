import Recourse.Proofs.Risk.Validity

/-! Outcomes that cannot happen. Two studies whose outcomes agree wherever the probability is not
zero get the same value and the same gradient from every measure. The order of the outcomes differs
between them, but among those that can happen it is the same, ties included, and the others have no
capacity to be filled. -/

namespace Recourse.RiskMeasure

variable {α : Type} [Field α] [LinearOrder α]

/-- Data of the outcomes in two studies that agree wherever an outcome can happen. -/
structure AgreeWhere {β : Type} (p : List α) (xs ys : List β) : Prop where
  length : xs.length = ys.length
  entry : ∀ i, p.getD i 0 ≠ 0 → xs[i]? = ys[i]?

namespace AgreeWhere

variable {β γ : Type} {p q : List α} {xs ys : List β}

theorem getD (h : AgreeWhere p xs ys) {i : ℕ} (hi : p.getD i 0 ≠ 0) (d : β) :
    xs.getD i d = ys.getD i d := by
  rw [List.getD_eq_getElem?_getD, List.getD_eq_getElem?_getD, h.entry i hi]

theorem map (h : AgreeWhere p xs ys) (f : β → γ) : AgreeWhere p (xs.map f) (ys.map f) where
  length := by simp [h.length]
  entry i hi := by simp [h.entry i hi]

/-- What agrees wherever outcomes can happen agrees wherever they have a weight. -/
theorem of_support (h : AgreeWhere p xs ys) (hq : ∀ i, p.getD i 0 = 0 → q.getD i 0 = 0) :
    AgreeWhere q xs ys where
  length := h.length
  entry i hi := h.entry i fun hzero => hi (hq i hzero)

theorem of_zero (hq : ∀ x ∈ q, x = 0) (h : xs.length = ys.length) : AgreeWhere q xs ys where
  length := h
  entry i hi := by
    refine absurd ?_ hi
    rw [List.getD_eq_getElem?_getD]
    rcases hx : q[i]? with _ | x
    · rfl
    · exact hq x (List.mem_of_getElem? hx)

theorem append {us vs : List β} (h : AgreeWhere p xs ys) (h' : AgreeWhere q us vs)
    (hlen : p.length = xs.length) :
    AgreeWhere (p ++ q) (xs ++ us) (ys ++ vs) where
  length := by simp [h.length, h'.length]
  entry i hi := by
    rw [List.getD_eq_getElem?_getD] at hi
    by_cases hlt : i < p.length
    · rw [List.getElem?_append_left hlt] at hi
      rw [List.getElem?_append_left (hlen ▸ hlt), List.getElem?_append_left (h.length ▸ hlen ▸ hlt)]
      exact h.entry i (by rwa [List.getD_eq_getElem?_getD])
    · have hle : p.length ≤ i := not_lt.mp hlt
      rw [List.getElem?_append_right hle] at hi
      rw [List.getElem?_append_right (hlen ▸ hle),
        List.getElem?_append_right (h.length ▸ hlen ▸ hle), ← h.length, ← hlen]
      exact h'.entry _ (by rwa [List.getD_eq_getElem?_getD])

theorem flatMap {ι : Type} {ks : List ι} {w : ι → List α} {f g : ι → List β}
    (h : ∀ k ∈ ks, (w k).length = (f k).length ∧ AgreeWhere (w k) (f k) (g k)) :
    AgreeWhere (ks.flatMap w) (ks.flatMap f) (ks.flatMap g) := by
  induction ks with
  | nil => exact ⟨rfl, fun _ _ => rfl⟩
  | cons k ks ih =>
    obtain ⟨hlen, hk⟩ := h k List.mem_cons_self
    exact hk.append (ih fun k' hk' => h k' (List.mem_cons_of_mem k hk')) hlen

theorem dot_eq {values values' : List α} (h : AgreeWhere q values values') :
    Scalar.dot q values = Scalar.dot q values' := by
  rw [Scalar.dot_eq_sum_range (min_le_left _ _), Scalar.dot_eq_sum_range (min_le_left _ _)]
  refine Finset.sum_congr rfl fun i _ => ?_
  by_cases hi : q.getD i 0 = 0
  · rw [hi, zero_mul, zero_mul]
  · rw [h.getD hi]

theorem weightedRows_eq {rows rows' : List (List α)} (h : AgreeWhere q rows rows') (width : ℕ) :
    Scalar.weightedRows width q rows = Scalar.weightedRows width q rows' :=
  List.map_congr_left fun _ _ => (h.map _).dot_eq

end AgreeWhere

variable {p values values' : List α} {rows rows' : List (List α)} {width : ℕ} {sense : Sense}
  {m : RiskMeasure α}

/-! ### The order of what can happen -/

variable [IsStrictOrderedRing α]

/-- What has no capacity may be left out of the order in which positions are filled. -/
theorem fill_filter {cap : ℕ → α} (hcap : ∀ i, 0 ≤ cap i) (order : List ℕ) {amount : α}
    (h : 0 ≤ amount) :
    fill cap (order.filter fun i => cap i ≠ 0) amount = fill cap order amount := by
  induction order generalizing amount with
  | nil => rfl
  | cons i order ih =>
    by_cases hi : cap i = 0
    · have hnone : fill cap order amount i = 0 :=
        le_antisymm ((fill_le hcap i).trans_eq hi) (fill_nonneg hcap h i)
      rw [List.filter_cons_of_neg (by simpa using hi), ih h, fill, hi, min_eq_left h,
        sub_zero, ← hnone,
        Function.update_eq_self]
    · rw [List.filter_cons_of_pos (by simpa using hi), fill, fill,
        ih (sub_nonneg.mpr (min_le_right _ _))]

theorem worstFirst_filter (h : AgreeWhere p values values') :
    (worstFirst sense values).filter (fun i => p.getD i 0 ≠ 0) =
      (worstFirst sense values').filter (fun i => p.getD i 0 ≠ 0) := by
  have hmem {i : ℕ} {order : List ℕ} (hi : i ∈ order.filter fun i => p.getD i 0 ≠ 0) :
      values.getD i 0 = values'.getD i 0 := h.getD (by simpa using (List.mem_filter.mp hi).2) 0
  have hperm : (worstFirst sense values).Perm (worstFirst sense values') :=
    worstFirst_perm.trans (h.length ▸ worstFirst_perm.symm)
  refine List.Perm.eq_of_pairwise ?_ (worstFirst_stable.filter _) ?_ (hperm.filter _)
  · rintro i j - - (hlt | ⟨heq, hij⟩) (hlt' | ⟨heq', hji⟩)
    · exact absurd hlt' hlt.asymm
    · exact absurd heq' hlt.ne'
    · exact absurd heq hlt'.ne'
    · exact le_antisymm hij hji
  · refine (worstFirst_stable.filter _).imp_of_mem fun hi hj => ?_
    rw [hmem hi, hmem hj]
    exact id

theorem tailWeights_agree (sense : Sense) {a : α} (hp : ∀ i, 0 ≤ p.getD i 0)
    (hlen : p.length = values.length) (ha : 0 < a)
    (h : AgreeWhere p values values') :
    tailWeights sense values p a = tailWeights sense values' p a := by
  have hcap : ∀ i, 0 ≤ p.getD i 0 / a := fun i => div_nonneg (hp i) ha.le
  have hsupport : ∀ order : List ℕ,
      order.filter (fun i => p.getD i 0 / a ≠ 0) = order.filter fun i =>
      p.getD i 0 ≠ 0 := fun order =>
    List.filter_congr fun i _ => by simp [ha.ne']
  rw [tailWeights_eq sense hp hlen ha, tailWeights_eq sense hp (hlen.trans h.length) ha, ← h.length,
    ← fill_filter hcap (worstFirst sense values) zero_le_one,
    ← fill_filter hcap (worstFirst sense values') zero_le_one, hsupport, hsupport,
    worstFirst_filter h]

/-- No weight of average value at risk is given to what cannot happen. -/
theorem tailWeights_support (sense : Sense) {a : α} (hp : ∀ i, 0 ≤ p.getD i 0)
    (hlen : p.length = values.length) (ha : 0 < a) :
    ∃ q, tailWeights sense values p a = .ok q ∧ q.length = p.length ∧
      ∀ i, p.getD i 0 = 0 → q.getD i 0 = 0 := by
  have hcap : ∀ i, 0 ≤ p.getD i 0 / a := fun i => div_nonneg (hp i) ha.le
  refine ⟨_, tailWeights_eq sense hp hlen ha, by simp [hlen], fun i hi => ?_⟩
  have hfill : fill (fun i => p.getD i 0 / a) (worstFirst sense values) 1 i = 0 := by
    refine le_antisymm ((fill_le hcap i).trans_eq ?_) (fill_nonneg hcap zero_le_one i)
    rw [hi, zero_div]
  rw [List.getD_eq_getElem?_getD, List.getElem?_map]
  rcases hx : (List.range values.length)[i]? with _ | x
  · rfl
  · obtain rfl : x = i := by
      obtain ⟨hlt, hget⟩ := List.getElem?_eq_some_iff.mp hx
      simpa using hget.symm
    exact hfill

/-! ### Every measure -/

omit [IsStrictOrderedRing α] in
theorem candidates_agree (h : AgreeWhere p values values') :
    candidates sense p values = candidates sense p values' := by
  refine List.ext_getElem (by simp [candidates, h.length]) fun i hi hi' => ?_
  obtain ⟨hip, hiv⟩ : i < p.length ∧ i < values.length := by simpa [candidates] using hi
  obtain ⟨-, hiv'⟩ : i < p.length ∧ i < values'.length := by simpa [candidates] using hi'
  simp only [candidates, List.getElem_zipWith]
  split_ifs with hpos
  · have hentry := h.entry i (by simpa [hip] using hpos.ne')
    rw [List.getElem?_eq_getElem hiv, List.getElem?_eq_getElem hiv'] at hentry
    rw [Option.some.inj hentry]
  · rfl

/-- What cannot happen has no influence on what a measure makes of the outcomes: studies that agree
elsewhere are answered alike. -/
theorem apply_agree (hm : m.Admissible) (hp : ∀ i, 0 ≤ p.getD i 0) (hpos : ∃ x ∈ p, 0 < x)
    (hlen : p.length = values.length) (hrows : rows.length = values.length)
    (hwidth : ∀ row ∈ rows, row.length = width)
    (hwidth' : ∀ row ∈ rows', row.length = width) (hv : AgreeWhere p values values')
    (hr : AgreeWhere p rows rows') :
    ∃ total, m.apply sense values rows (some p) = .ok total ∧
      m.apply sense values' rows' (some p) = .ok total := by
  have hne : values ≠ [] := by
    rintro rfl
    obtain ⟨x, hx, -⟩ := hpos
    simp_all
  have hne' : values' ≠ [] := fun h => hne (List.length_eq_zero_iff.mp (by rw [hv.length, h]; rfl))
  have hrows' : rows'.length = values'.length := by rw [← hr.length, hrows, hv.length]
  -- weights that leave out what cannot happen weigh the two studies alike
  have hweigh {q : List α} (hq : q.length = p.length)
      (hsupport : ∀ i, p.getD i 0 = 0 → q.getD i 0 = 0) :
      ∃ total, weigh q values rows = .ok total ∧ weigh q values' rows' = .ok total := by
    refine ⟨_, weigh_eq (hq.trans hlen) hrows hne hwidth, ?_⟩
    rw [weigh_eq (hq.trans (hlen.trans hv.length)) hrows' hne' hwidth',
      (hv.of_support hsupport).dot_eq,
      (hr.of_support hsupport).weightedRows_eq]
  cases m with
  | expectation => exact hweigh rfl fun _ => id
  | worstCase =>
    obtain ⟨i, -, hi, hpi, hrun, -⟩ := worstOutcome_spec sense hpos hlen hrows hwidth
    obtain ⟨i', -, hi', -, hrun', -⟩ :=
      worstOutcome_spec sense hpos (hlen.trans hv.length) hrows' hwidth'
    obtain rfl : i' = i := by rw [hi, hi', candidates_agree hv]
    rw [← hv.getD hpi.ne', ← hr.getD hpi.ne'] at hrun'
    exact ⟨_, hrun, hrun'⟩
  | tail a =>
    obtain ⟨q, hrun, hqlen, hq⟩ := tailWeights_support sense hp hlen hm.1
    have hrun' := (tailWeights_agree sense hp hlen hm.1 hv).symm.trans hrun
    obtain ⟨total, htotal, htotal'⟩ := hweigh hqlen hq
    refine ⟨total, ?_, ?_⟩
    · simp [apply, checkLevel, hm.1, hm.2, hrun, htotal, bind, Except.bind]
    · simp [apply, checkLevel, hm.1, hm.2, hrun', htotal', bind, Except.bind]
  | mixed a l =>
    obtain ⟨q, hrun, hqlen, hq⟩ := tailWeights_support sense hp hlen hm.1.1
    have hrun' := (tailWeights_agree sense hp hlen hm.1.1 hv).symm.trans hrun
    obtain ⟨total, htotal, htotal'⟩ := hweigh (q := p.zipWith (fun x y => (1 - l) * x + l * y) q)
      (by simp [hqlen])
      fun i hi => by rw [getD_mix l hqlen, hi, hq i hi]; simp
    refine ⟨total, ?_, ?_⟩
    · simp [apply, checkLevel, checkWeight, hm.1.1, hm.1.2, hm.2.1, hm.2.2, hrun, mix_eq l hqlen,
        htotal, bind,
        Except.bind]
    · simp [apply, checkLevel, checkWeight, hm.1.1, hm.1.2, hm.2.1, hm.2.2, hrun', mix_eq l hqlen,
        htotal', bind,
        Except.bind]

/-- Studies that agree wherever an outcome can happen are answered alike, whatever the parameters
are. -/
theorem apply_congr (hp : ∀ i, 0 ≤ p.getD i 0) (hpos : ∃ x ∈ p, 0 < x)
    (hlen : p.length = values.length) (hrows : rows.length = values.length)
    (hwidth : ∀ row ∈ rows, row.length = width)
    (hwidth' : ∀ row ∈ rows', row.length = width) (hv : AgreeWhere p values values')
    (hr : AgreeWhere p rows rows') :
    m.apply sense values rows (some p) = m.apply sense values' rows' (some p) := by
  by_cases hm : m.Admissible
  · obtain ⟨total, h, h'⟩ := apply_agree hm hp hpos hlen hrows hwidth hwidth' hv hr
    exact h.trans h'.symm
  -- parameters that are not admissible are refused before anything is weighed
  have hlevel {a : α} (ha : ¬ (0 < a ∧ a ≤ 1)) : checkLevel a = .error (.value .tailLevel) :=
    if_neg (by simpa using ha)
  cases m with
  | expectation => exact absurd trivial hm
  | worstCase => exact absurd trivial hm
  | tail a => simp [apply, hlevel hm, bind, Except.bind]
  | mixed a l =>
    by_cases hl : 0 ≤ l ∧ l ≤ 1
    · have hweight : checkWeight l = .ok () := if_pos (by simpa using hl)
      simp [apply, hlevel fun ha => hm ⟨ha, hl⟩, hweight, bind, Except.bind]
    · have hweight : checkWeight l = .error (.value (.tailRange .weight)) :=
        if_neg (by simpa using hl)
      simp [apply, hweight, bind, Except.bind]

end Recourse.RiskMeasure
