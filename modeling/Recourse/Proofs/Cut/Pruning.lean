import Recourse.Proofs.Cut.Pool

/-! What pruning a whole pool loses. Every stored cut is judged against the whole list as it was, so
a cut may go because of one that goes itself. Nothing is lost exactly if each cut that goes is
dominated by one that stays, which a transitive dominance relation ensures. The tolerance of the
test makes dominance intransitive: three nearly equal constants are enough to empty a pool. -/

namespace Recourse.Pool

variable {α : Type} [Field α] [LinearOrder α] {p : Pool α}

/-- Whether the stored cut at position `i` goes because of the one at position `j`. -/
def Yields (p : Pool α) (i j : Fin p.cuts.length) : Prop :=
  j ≠ i ∧ p.Dominates p.cuts[i] p.cuts[j] ∧ (i < j ∨ ¬ p.Dominates p.cuts[j] p.cuts[i])

/-- Whether every stored cut is dominated by one that is stored in a later pool. -/
def Represents (later p : Pool α) : Prop := ∀ c ∈ p.cuts, ∃ k ∈ later.cuts, p.Dominates c k

private def givesWay (p : Pool α) (x y : Cut α × ℕ) : Bool :=
  y.2 != x.2 && x.1.isDominated p.sense p.box y.1 &&
    (decide (x.2 < y.2) || !y.1.isDominated p.sense p.box x.1)

private theorem yields_eq {c other : Cut α} (hc : c.Fits p.box) (ho : other.Fits p.box) (i j : ℕ) :
    p.yields c i other j = .ok (p.givesWay (c, i) (other, j)) := by
  have h1 : p.dominates? c other = .ok (c.isDominated p.sense p.box other) :=
    Cut.isDominated?_eq p.sense hc ho
  have h2 : p.dominates? other c = .ok (other.isDominated p.sense p.box c) :=
    Cut.isDominated?_eq p.sense ho hc
  by_cases hij : j = i
  · simp [yields, givesWay, hij]
    rfl
  · cases hd : c.isDominated p.sense p.box other with
    | false => simp [yields, givesWay, hij, h1, hd, bind, Except.bind, pure, Except.pure]
    | true =>
      by_cases hlt : i < j <;>
        simp [yields, givesWay, hij, h1, h2, hd, hlt, bind, Except.bind, pure, Except.pure]

omit [Field α] [LinearOrder α] in
private theorem fits_of_mem (hp : p.Fitting) {x : Cut α × ℕ} (hx : x ∈ p.cuts.zipIdx) :
    x.1.Fits p.box :=
  hp _ (List.fst_mem_of_mem_zipIdx hx)

private theorem undominated_eq (hp : p.Fitting) :
    p.undominated = .ok ((p.cuts.zipIdx.filter fun x => !p.cuts.zipIdx.any (p.givesWay x)).map
      (·.1)) := by
  have hkept : p.cuts.zipIdx.filterM (fun x => do
      return !(← p.cuts.zipIdx.anyM fun (y : Cut α × ℕ) => p.yields x.1 x.2 y.1 y.2)) =
      .ok (p.cuts.zipIdx.filter fun x => !p.cuts.zipIdx.any (p.givesWay x)) := by
    refine filterM_ok fun x hx => ?_
    rw [anyM_ok fun y hy => yields_eq (fits_of_mem hp hx) (fits_of_mem hp hy) x.2 y.2]
    rfl
  exact congrArg (· >>= fun kept => pure (kept.map (·.1))) hkept

private theorem givesWay_iff {i j : Fin p.cuts.length} :
    p.givesWay (p.cuts[i], i) (p.cuts[j], j) = true ↔ p.Yields i j := by
  simp [givesWay, Yields, Dominates, Fin.ext_iff, and_assoc]

private theorem any_givesWay_iff {i : Fin p.cuts.length} :
    p.cuts.zipIdx.any (p.givesWay (p.cuts[i], i)) = true ↔ ∃ j, p.Yields i j := by
  simp only [List.any_eq_true, Prod.exists, List.mem_zipIdx_iff_getElem?]
  constructor
  · rintro ⟨other, j, hj, h⟩
    obtain ⟨hlt, rfl⟩ := List.getElem?_eq_some_iff.mp hj
    exact ⟨⟨j, hlt⟩, givesWay_iff.mp h⟩
  · rintro ⟨j, hj⟩
    exact ⟨p.cuts[j], j, by simp, givesWay_iff.mpr hj⟩

private theorem mem_kept_iff {c : Cut α} :
    c ∈ (p.cuts.zipIdx.filter fun x => !p.cuts.zipIdx.any (p.givesWay x)).map (·.1) ↔
      ∃ i, p.cuts[i] = c ∧ ∀ j, ¬ p.Yields i j := by
  simp only [List.mem_map, List.mem_filter, Prod.exists, List.mem_zipIdx_iff_getElem?,
    Bool.not_eq_true',
    Bool.eq_false_iff]
  constructor
  · rintro ⟨c, i, ⟨hi, hnone⟩, rfl⟩
    obtain ⟨hlt, rfl⟩ := List.getElem?_eq_some_iff.mp hi
    exact ⟨⟨i, hlt⟩, rfl, fun j hj => hnone (any_givesWay_iff.mpr ⟨j, hj⟩)⟩
  · rintro ⟨i, rfl, hnone⟩
    refine ⟨p.cuts[i], i, ⟨by simp, fun h => ?_⟩, rfl⟩
    obtain ⟨j, hj⟩ := any_givesWay_iff.mp h
    exact hnone j hj

/-- Pruning never fails, and it keeps exactly the cuts that yield to none. -/
theorem prune_spec (hp : p.Fitting) :
    ∃ n later, prune.on p = (.ok n, later) ∧ later.cuts.length + n = p.cuts.length ∧
      ∀ c, c ∈ later.cuts ↔ ∃ i, p.cuts[i] = c ∧ ∀ j, ¬ p.Yields i j := by
  set kept := (p.cuts.zipIdx.filter fun x => !p.cuts.zipIdx.any (p.givesWay x)).map (·.1) with hkept
  have hsub : kept.Sublist p.cuts := by
    have := (List.filter_sublist (p := fun x => !p.cuts.zipIdx.any (p.givesWay x))
      (l := p.cuts.zipIdx)).map (·.1)
    rwa [List.zipIdx_map_fst] at this
  have hrun : prune.on p = if p.cuts.length - kept.length = 0 then (.ok 0, p)
      else (.ok (p.cuts.length - kept.length), { p with
        cuts := kept, pruned := p.pruned + (p.cuts.length - kept.length)
        version := p.version + 1 }) := by
    simp [Run.on, prune, undominated_eq hp, ← hkept]
  by_cases hn : p.cuts.length - kept.length = 0
  · rw [if_pos hn] at hrun
    have hall : kept = p.cuts := hsub.eq_of_length_le (by omega)
    refine ⟨0, p, hrun, rfl, fun c => ?_⟩
    rw [← mem_kept_iff, ← hkept, hall]
  · rw [if_neg hn] at hrun
    have hle := hsub.length_le
    exact ⟨_, _, hrun, by simp only; omega, fun c => mem_kept_iff⟩

section Transitive

variable (htrans : ∀ i j k : Fin p.cuts.length, p.Dominates p.cuts[i] p.cuts[j] →
  p.Dominates p.cuts[j] p.cuts[k] → p.Dominates p.cuts[i] p.cuts[k])

include htrans in
private theorem Yields.trans {i j k : Fin p.cuts.length} (hij : p.Yields i j) (hjk : p.Yields j k) :
    p.Yields i k := by
  obtain ⟨hne, hd, hback⟩ := hij
  obtain ⟨hne', hd', hback'⟩ := hjk
  -- if the last one is dominated by the first one, all three dominate each other, and the order
  -- decides
  have horder (h : p.Dominates p.cuts[k] p.cuts[i]) : i < k := by
    have hji := htrans j k i hd' h
    have hkj := htrans k i j h hd
    rcases hback with hlt | hnot
    · rcases hback' with hlt' | hnot'
      · exact hlt.trans hlt'
      · exact absurd hkj hnot'
    · exact absurd hji hnot
  refine ⟨?_, htrans i j k hd hd', ?_⟩
  · rintro rfl
    exact absurd (horder (htrans k j k hd hd')) (lt_irrefl _)
  · by_cases h : p.Dominates p.cuts[k] p.cuts[i]
    · exact .inl (horder h)
    · exact .inr h

include htrans in
/-- Along a transitive dominance relation, every cut is dominated by one that stays. -/
private theorem exists_final [IsStrictOrderedRing α] (i : Fin p.cuts.length) :
    ∃ j, p.Dominates p.cuts[i] p.cuts[j] ∧ ∀ k, ¬ p.Yields j k := by
  let later (j i : Fin p.cuts.length) : Prop := p.Yields i j
  have : IsTrans _ later := ⟨fun _ _ _ hab hbc => Yields.trans htrans hbc hab⟩
  have : Std.Irrefl later := ⟨fun _ h => h.1 rfl⟩
  induction i using (Finite.wellFounded_of_trans_of_irrefl later).induction with
  | _ i ih =>
    by_cases h : ∃ j, p.Yields i j
    · obtain ⟨j, hj⟩ := h
      obtain ⟨k, hjk, hk⟩ := ih j hj
      exact ⟨k, htrans i j k hj.2.1 hjk, hk⟩
    · exact ⟨i, Cut.isDominated_self .., not_exists.mp h⟩

end Transitive

/-- Pruning loses nothing exactly if each stored cut is dominated by one that yields to none. A
dominance relation that is transitive on the stored cuts ensures this. -/
theorem prune_represents_iff [IsStrictOrderedRing α] (hp : p.Fitting) :
    ∃ n later, prune.on p = (.ok n, later) ∧ later.cuts.length + n = p.cuts.length ∧
      (later.Represents p ↔
        ∀ i : Fin p.cuts.length, ∃ j, p.Dominates p.cuts[i] p.cuts[j] ∧ ∀ k, ¬ p.Yields j k) ∧
      ((∀ i j k : Fin p.cuts.length, p.Dominates p.cuts[i] p.cuts[j] →
        p.Dominates p.cuts[j] p.cuts[k] → p.Dominates p.cuts[i] p.cuts[k]) →
        later.Represents p) := by
  obtain ⟨n, later, hrun, hlen, hmem⟩ := prune_spec hp
  have hiff : later.Represents p ↔
      ∀ i : Fin p.cuts.length, ∃ j, p.Dominates p.cuts[i] p.cuts[j] ∧ ∀ k, ¬ p.Yields j k := by
    constructor
    · intro h i
      obtain ⟨k, hk, hd⟩ := h p.cuts[i] (List.getElem_mem _)
      obtain ⟨j, rfl, hj⟩ := (hmem k).mp hk
      exact ⟨j, hd, hj⟩
    · intro h c hc
      obtain ⟨i, hi, rfl⟩ := List.getElem_of_mem hc
      obtain ⟨j, hd, hj⟩ := h ⟨i, hi⟩
      exact ⟨p.cuts[j], (hmem _).mpr ⟨j, rfl, hj⟩, hd⟩
  exact ⟨n, later, hrun, hlen, hiff, fun htrans => hiff.mpr (exists_final htrans)⟩

def constants (levels : List ℚ) : Pool ℚ where
  sense := .minimize
  box := { lower := [.fin 0], upper := [.fin 1] }
  pruning := false
  cuts := levels.zipIdx.map fun x =>
    { stage := 0, markovState := 0, intercept := x.1, slopes := [0], noiseSlopes := [],
      index := some x.2 }
  issued := levels.length
  pruned := 0
  version := levels.length

theorem constants_fitting (levels : List ℚ) : (constants levels).Fitting := by
  intro c hc
  obtain ⟨x, -, rfl⟩ := List.mem_map.mp hc
  exact ⟨rfl, rfl, rfl⟩

/-- Of three constants that are clearly apart, the two lower ones go and the highest one stands for
them. -/
theorem prune_constants_apart :
    (constants [0, 2, 1]).Fitting ∧ ∃ n later, prune.on (constants [0, 2, 1]) = (.ok n, later) ∧
      later.cuts.length + n = 3 ∧ later.Represents (constants [0, 2, 1]) := by
  have hp := constants_fitting [0, 2, 1]
  obtain ⟨n, later, hrun, hlen, -, htrans⟩ := prune_represents_iff hp
  refine ⟨hp, n, later, hrun, hlen, htrans ?_⟩
  unfold Dominates
  decide +kernel

/-- Each of these three constants yields to another one in a circle: each is above the next by less
than the tolerance, and the last is below the first. Pruning leaves nothing. -/
theorem prune_constants_near :
    (constants [18 / 10 ^ 10, 9 / 10 ^ 10, 0]).Fitting ∧
      (prune.on (constants [18 / 10 ^ 10, 9 / 10 ^ 10, 0])).2.cuts = [] ∧
      ¬ (prune.on (constants [18 / 10 ^ 10, 9 / 10 ^ 10, 0])).2.Represents
        (constants [18 / 10 ^ 10, 9 / 10 ^ 10, 0]) := by
  have hnone : (prune.on (constants [18 / 10 ^ 10, 9 / 10 ^ 10, 0])).2.cuts = [] := by
    rw [← List.isEmpty_iff]
    decide +kernel
  refine ⟨constants_fitting _, hnone, fun h => ?_⟩
  obtain ⟨k, hk, -⟩ := h _ (List.mem_cons_self ..)
  rw [hnone] at hk
  exact absurd hk List.not_mem_nil

end Recourse.Pool
