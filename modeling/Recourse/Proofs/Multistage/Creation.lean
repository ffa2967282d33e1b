import Recourse.Proofs.Multistage.Tree

/-! Where charted problems come from: every problem that an outline describes is one, and stays one
when a chain is added that is accepted. -/

namespace Recourse

variable {α : Type} [Field α] [LinearOrder α] [Numeral α] {p p' : Multistage α}

theorem Datum.pos_of_not_exceeds {d : Datum α} {n : ℤ} (hn : d.int? = some n)
    (h : Datum.exceeds (.int 1) d = .ok false) : 1 ≤ n := by
  have horder : Datum.order (.int 1 : Datum α) d = .ok (some (compare 1 n)) := by
    cases d with
    | bool b =>
      obtain rfl := Option.some.inj hn
      cases b <;> simp [Datum.order, Datum.compareNumbers?, Datum.int?]
    | int m =>
      obtain rfl := Option.some.inj hn
      simp [Datum.order, Datum.compareNumbers?, Datum.int?]
    | _ => cases hn
  rw [Datum.exceeds, horder] at h
  have hle : (compare 1 n == Ordering.gt) = false := by simpa using Except.ok.inj h
  by_contra hlt
  have hgt : compare 1 n = Ordering.gt := compare_gt_iff_gt.mpr (by omega)
  simp [hgt] at hle

theorem Datum.eq_of_isWhole {d : Datum α} {n : ℤ} {k : ℕ} (hn : d.int? = some n)
    (h : d.isWhole k = true) : n = k := by
  have hcompare : Datum.compareNumbers? d (.int k) = some (some (compare n k)) := by
    cases d with
    | bool b =>
      obtain rfl := Option.some.inj hn
      rfl
    | int m =>
      obtain rfl := Option.some.inj hn
      rfl
    | _ => cases hn
  rw [Datum.isWhole, hcompare] at h
  exact compare_eq_iff_eq.mp (Option.some.inj (Option.some.inj (eq_of_beq h)))

namespace Multistage

theorem length_newModels {o : Outline α} {counts : List ℕ} {models : List (List (Stage α))}
    (h : o.newModels counts = .ok models) : models.map List.length = counts := by
  obtain ⟨settings, -, h⟩ := ok_of_bind h
  obtain rfl := Except.ok.inj h
  rw [List.map_map]
  refine List.ext_getElem (by simp) fun t ht ht' => ?_
  simp

theorem charted_of_create {o : Outline α} (h : create o = .ok p) :
    p.Charted ∧ p.outline.horizon.int? = some ↑p.horizon := by
  obtain ⟨good, hgood, h⟩ := ok_of_bind h
  cases good with
  | false => cases h
  | true =>
    have hexceeds : Datum.exceeds (.int 1) o.horizon = .ok false := by
      obtain ⟨larger, hlarger, hgood⟩ := ok_of_bind hgood
      cases larger with
      | true => cases hgood
      | false => exact hlarger
    rcases hn : o.horizon.int? with _ | n
    · simp only [hn] at h
      cases h
    · have hpos := Datum.pos_of_not_exceeds hn hexceeds
      simp only [hn] at h
      obtain ⟨discount, -, h⟩ := ok_of_bind h
      obtain ⟨models, hmodels, h⟩ := ok_of_bind h
      obtain rfl := Except.ok.inj h
      refine ⟨⟨.inl ⟨n.toNat, rfl⟩, ?_, List.length_replicate, length_newModels hmodels⟩, ?_⟩
      · change 0 < n.toNat
        omega
      · change o.horizon.int? = some (n.toNat : ℤ)
        rw [hn, Int.toNat_of_nonneg (by omega)]

omit [Field α] [LinearOrder α] in
/-- A chain that is refused changes nothing; one that is accepted brings new models. -/
theorem setChain_on [Scalar α] (matrices : Datum α) (p : Multistage α) :
    (∃ e, (setChain matrices).on p = (.error e, p)) ∨
      ∃ chain models, Chain.ofDatum matrices p.outline.horizon = .ok chain ∧
        p.outline.newModels chain.counts = .ok models ∧
        (setChain matrices).on p = (.ok (), { p with chain, models, markovian := true }) := by
  rw [setChain, Run.bind_ok _ (Run.get_on p)]
  dsimp only
  by_cases htwice : p.markovian = true
  · rw [if_pos htwice, Run.bind_error _ (Run.throw_on _ p)]
    exact .inl ⟨_, rfl⟩
  rw [if_neg htwice]
  by_cases hlate : (p.models.any fun ms => ms.any fun m => !m.columns.isEmpty) = true
  · rw [if_pos hlate, Run.bind_error _ (Run.throw_on _ p)]
    exact .inl ⟨_, rfl⟩
  rw [if_neg hlate]
  rcases hchain : Chain.ofDatum matrices p.outline.horizon with e | chain
  · exact .inl ⟨e, rfl⟩
  rcases hmodels : p.outline.newModels chain.counts with e | models
  · refine .inl ⟨e, ?_⟩
    rw [Run.bind_ok _ (Run.ofExcept_on (.ok chain) p), hmodels]
    rfl
  · refine .inr ⟨chain, models, rfl, hmodels, ?_⟩
    rw [Run.bind_ok _ (Run.ofExcept_on (.ok chain) p), hmodels]
    rfl

theorem Charted.setChain (hp : p.Charted) (hasked : p.outline.horizon.int? = some ↑p.horizon)
    {matrices : Datum α} (h : (setChain matrices).on p = (.ok (), p')) : p'.Charted := by
  obtain ⟨e, hrun⟩ | ⟨chain, models, hchain, hmodels, hrun⟩ := setChain_on matrices p
  · cases hrun.symm.trans h
  obtain rfl := (Prod.mk.inj (hrun.symm.trans h)).2
  have hstages := Datum.eq_of_isWhole hasked (Chain.isWhole_of_ofDatum hchain)
  refine ⟨.inr ⟨_, _, hchain⟩, hp.horizon, ?_, length_newModels hmodels⟩
  change chain.counts.length = p.horizon
  omega

end Multistage

end Recourse
