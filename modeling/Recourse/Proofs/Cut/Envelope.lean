import Recourse.Proofs.Cut.Pool

/-! The upper envelope of a pool that prunes on arrival. A cut goes because of one that is stored
after the step, and that one may go later: the witness is chosen anew at every step, and each choice
costs one tolerance. -/

namespace Recourse.Pool

variable {α : Type} [Field α] [LinearOrder α] {p : Pool α} {c : Cut α}

/-- A pool after a cut arrived: nothing but the stored cuts and the counters changed, every stored
cut was there before or has just arrived, and each of these is stored still or dominated by a stored
one. -/
structure Screened (p : Pool α) (c : Cut α) (later : Pool α) : Prop where
  sense : later.sense = p.sense
  box : later.box = p.box
  pruning : later.pruning = p.pruning
  source : ∀ k ∈ later.cuts, k ∈ p.cuts ∨ k = { c with index := some p.issued }
  witness : ∀ d, d ∈ p.cuts ∨ d = { c with index := some p.issued } →
    ∃ k ∈ later.cuts, d = k ∨ p.Dominates d k

theorem add_screened (hprune : p.pruning = true) (hp : p.Fitting) (hc : c.Fits p.box) :
    ∃ answer later, (add c).on p = (.ok answer, later) ∧ p.Screened c later := by
  set c' : Cut α := { c with index := some p.issued } with hc'
  have hrun := add_of_pruning hprune c
  rw [← hc', screen_eq hp (hc.withIndex (some p.issued))] at hrun
  by_cases hany : p.cuts.any (fun other => c'.isDominated p.sense p.box other) = true
  · rw [if_pos hany] at hrun
    obtain ⟨k, hk, hd⟩ := List.any_eq_true.mp hany
    refine ⟨_, _, hrun, rfl, rfl, rfl, fun k hk => .inl hk, ?_⟩
    rintro d (hd' | rfl)
    · exact ⟨d, hd', .inl rfl⟩
    · exact ⟨k, hk, .inr hd⟩
  · rw [if_neg hany] at hrun
    refine ⟨_, _, hrun, rfl, rfl, rfl, fun k hk => ?_, ?_⟩
    · rcases List.mem_append.mp hk with hk | hk
      · exact .inl (List.mem_filter.mp hk).1
      · exact .inr (List.mem_singleton.mp hk)
    have hlast : c' ∈ (p.cuts.filter fun other => !other.isDominated p.sense p.box c') ++ [c'] :=
      List.mem_append_right _ (List.mem_singleton_self _)
    rintro d (hd | rfl)
    · by_cases hdc : d.isDominated p.sense p.box c' = true
      · exact ⟨c', hlast, .inr hdc⟩
      · exact ⟨d, List.mem_append_left _ (List.mem_filter.mpr ⟨hd, by simpa using hdc⟩), .inl rfl⟩
    · exact ⟨c', hlast, .inl rfl⟩

/-- Up to their indices, the cuts still to be considered after an arrival are among those before. -/
theorem Screened.exists_source {mid : Pool α} (h : p.Screened c mid) {cs : List (Cut α)}
    {k : Cut α} (hk : k ∈ mid.cuts ++ cs) :
    ∃ d ∈ p.cuts ++ c :: cs, ∃ i, k = { d with index := i } := by
  rcases List.mem_append.mp hk with hk | hk
  · rcases h.source k hk with hk | rfl
    · exact ⟨k, by simp [hk], k.index, rfl⟩
    · exact ⟨c, by simp, _, rfl⟩
  · exact ⟨k, by simp [hk], k.index, rfl⟩

variable [IsStrictOrderedRing α]

/-- Whether a cut is covered by one that a later pool stores: over the box it is nowhere tighter by
more than a margin. -/
def Covers (later p : Pool α) (margin : α) (c : Cut α) : Prop :=
  ∃ k ∈ later.cuts, ∀ x, p.box.Contains x →
    p.sense.orient (c.evaluate x) ≤ p.sense.orient (k.evaluate x) + margin

theorem Covers.trans {later : Pool α} {margin gap : α} {k : Cut α} (h : later.Covers p margin k)
    (hgap : ∀ x, p.box.Contains x → p.sense.orient (c.evaluate x) ≤ p.sense.orient
      (k.evaluate x) + gap) :
    later.Covers p (gap + margin) c := by
  obtain ⟨k', hk', hle⟩ := h
  refine ⟨k', hk', fun x hx => (hgap x hx).trans ?_⟩
  rw [add_comm gap, ← add_assoc]
  exact add_le_add_left (hle x hx) gap

/-- A cut whose intercept is bounded has a bounded tolerance. -/
theorem dominanceTolerance_le {M : α} (h : |c.intercept| ≤ M) :
    c.dominanceTolerance ≤ Scalar.ratio 1 (10 ^ 9) * (1 + M) := by
  rw [Cut.dominanceTolerance_eq, Scalar.ratio_eq]
  gcongr

/-- What was stored before an arrival, and what has arrived, is covered wherever the pool after it
is, at the cost of one tolerance. -/
theorem Screened.covers {mid later : Pool α} (h : p.Screened c mid) {M margin : α} (hM₀ : 0 ≤ M)
    (hapart : ∀ e ∈ c :: p.cuts, ∀ d ∈ c :: p.cuts, e.Apart d)
    (hM : ∀ d ∈ c :: p.cuts, |d.intercept| ≤ M)
    (hmid : ∀ k ∈ mid.cuts, later.Covers p margin k) {d : Cut α}
    (hd : d ∈ p.cuts ∨ d = { c with index := some p.issued }) :
    later.Covers p (Scalar.ratio 1 (10 ^ 9) * (1 + M) + margin) d := by
  have hsource : ∀ k, k ∈ p.cuts ∨ k = { c with index := some p.issued } →
      ∃ e ∈ c :: p.cuts, ∃ i, k = { e with index := i } := by
    rintro k (hk | rfl)
    · exact ⟨k, List.mem_cons_of_mem _ hk, k.index, rfl⟩
    · exact ⟨c, List.mem_cons_self, _, rfl⟩
  obtain ⟨k, hk, hdk⟩ := h.witness d hd
  refine Covers.trans (hmid k hk) fun x hx => ?_
  rcases hdk with rfl | hdk
  · rw [Scalar.ratio_eq]
    exact le_add_of_nonneg_right (by positivity)
  · obtain ⟨e, he, i, rfl⟩ := hsource k (h.source k hk)
    obtain ⟨f, hf, j, rfl⟩ := hsource d hd
    exact (Cut.evaluate_le_of_isDominated (hapart f hf e he) hdk hx).trans
      (add_le_add_right (dominanceTolerance_le (hM f hf)) _)

/-- Pruning on arrival preserves the envelope up to one tolerance for each arriving cut. The cuts
fit the box, their slopes are equal or clearly apart, and `M` bounds their intercepts. -/
theorem mapM_add_covers (hprune : p.pruning = true) {cs : List (Cut α)} {M : α}
    (hfit : ∀ c ∈ p.cuts ++ cs, c.Fits p.box)
    (hapart : ∀ c ∈ p.cuts ++ cs, ∀ d ∈ p.cuts ++ cs, c.Apart d)
    (hM : ∀ c ∈ p.cuts ++ cs, |c.intercept| ≤ M) :
    ∃ answers later, (cs.mapM add).on p = (.ok answers, later) ∧
      ∀ c ∈ p.cuts ++ cs, later.Covers p (cs.length * (Scalar.ratio 1 (10 ^ 9) * (1 + M))) c := by
  induction cs generalizing p with
  | nil => exact ⟨[], p, rfl, fun c hc => ⟨c, by simpa using hc, fun x _ => by simp⟩⟩
  | cons c cs ih =>
    obtain ⟨answer, mid, hrun, hmid⟩ := add_screened hprune
      (fun d hd => hfit d (List.mem_append_left _ hd)) (hfit c (by simp))
    have hM₀ : 0 ≤ M := (abs_nonneg _).trans (hM c (by simp))
    have hτ : 0 ≤ Scalar.ratio 1 (10 ^ 9) * (1 + M) := by
      rw [Scalar.ratio_eq]
      positivity
    obtain ⟨answers, later, hrest, hcover⟩ := ih (p := mid) (by rw [hmid.pruning, hprune])
      (fun k hk => by
        obtain ⟨d, hd, i, rfl⟩ := hmid.exists_source hk
        rw [hmid.box]
        exact (hfit d hd).withIndex i)
      (fun k hk l hl => by
        obtain ⟨d, hd, i, rfl⟩ := hmid.exists_source hk
        obtain ⟨e, he, j, rfl⟩ := hmid.exists_source hl
        exact hapart d hd e he)
      (fun k hk => by
        obtain ⟨d, hd, i, rfl⟩ := hmid.exists_source hk
        exact hM d hd)
    replace hcover : ∀ k ∈ mid.cuts ++ cs,
        later.Covers p (cs.length * (Scalar.ratio 1 (10 ^ 9) * (1 + M))) k := by
      simpa only [Covers, hmid.sense, hmid.box] using hcover
    have hconsidered : ∀ d ∈ c :: p.cuts, d ∈ p.cuts ++ c :: cs := by
      simp +contextual [or_imp]
    have hstep {d : Cut α} (hd : d ∈ p.cuts ∨ d = { c with index := some p.issued }) :=
      hmid.covers hM₀
        (fun e he d hd => hapart e (hconsidered e he) d (hconsidered d hd))
        (fun d hd => hM d (hconsidered d hd))
        (fun k hk => hcover k (List.mem_append_left _ hk)) hd
    refine ⟨answer :: answers, later, ?_, fun d hd => ?_⟩
    · rw [List.mapM_cons, Run.bind_ok _ hrun, Run.bind_ok _ hrest, Run.pure_on]
    · rw [List.length_cons, Nat.cast_succ, add_mul, one_mul, add_comm]
      rcases List.mem_append.mp hd with hd | hd
      · exact hstep (.inl hd)
      · rcases List.mem_cons.mp hd with rfl | hd
        · exact hstep (d := { d with index := some p.issued }) (.inr rfl)
        · exact Covers.trans (hcover d (List.mem_append_right _ hd)) fun x _ =>
            le_add_of_nonneg_right hτ

/-- Three lines over the half line, of which the second one is below the third one everywhere. -/
def lines : List (Cut ℚ) :=
  [(0, 1), (1, 0), (2, 1 / 2)].map fun l =>
    { stage := 0, markovState := 0, intercept := l.1, slopes := [l.2], noiseSlopes := [],
      index := none }

theorem mapM_add_covers_lines :
    ∃ answers later, (lines.mapM add).on (empty .minimize ⟨[.fin 0], [.above]⟩ true) =
      (.ok answers, later) ∧
      ∀ c ∈ lines, later.Covers (empty .minimize ⟨[.fin 0], [.above]⟩ true)
        (3 * (Scalar.ratio 1 (10 ^ 9) * (1 + 2))) c := by
  refine mapM_add_covers (M := (2 : ℚ)) rfl ?_ ?_ ?_ <;> simp only [empty, List.nil_append]
  · intro c hc
    obtain ⟨l, -, rfl⟩ := List.mem_map.mp hc
    exact ⟨rfl, rfl, rfl⟩
  · simp [lines, Cut.Apart, Cut.gradient, Cut.slopeTolerance, Scalar.ratio_eq]
    norm_num
  · simp [lines]

end Recourse.Pool
