import Recourse.Proofs.Cut.Antichain
import Recourse.Proofs.Cut.Envelope

/-! Pruning a pool once is enough. Dominance has a tolerance and is not transitive, so what pruning
leaves is read off its own conditions: of two cuts that are left, the earlier one is not dominated
by the later one, since it would yield to it, and the later one is not dominated by the earlier one,
since that would have to be dominated in return. -/

namespace Recourse

variable {α : Type} [Scalar α]

omit [Scalar α] in
theorem commonLength_eq_of_single {n : ℕ} {ns : List ℕ} (h : ∀ m ∈ n :: ns, m = n ∨ m = 1) :
    commonLength (n :: ns) = n := by
  unfold commonLength
  by_cases hn : n = 1
  · have hnone : (n :: ns).find? (· ≠ 1) = none := List.find?_eq_none.mpr fun m hm => by
      rcases h m hm with rfl | rfl <;> simp [*]
    rw [hnone, Option.getD_none, hn]
  · rw [List.find?_cons_of_pos (by simpa using hn), Option.getD_some]

omit [Scalar α] in
theorem isSome_stretch? {β : Type} {n : ℕ} {xs : List β} (h : xs.length = n ∨ xs.length = 1) :
    (stretch? n xs).isSome = true := by
  unfold stretch?
  split
  · rfl
  · next hne =>
    have hlength : xs.length = n := by
      rcases h with h | h
      · exact h
      · obtain ⟨x, rfl⟩ := List.length_eq_one_iff.mp h
        exact absurd rfl (hne x)
    rw [if_pos hlength]
    rfl

namespace Cut

/-- Whether a cut has `n` slopes, all of them numbers, and a box has as many coordinates or one pair
of limits for all. -/
structure Spans (n : ℕ) (box : Box α) (c : Cut α) : Prop where
  numeric : c.hasText = false
  slopes : c.gradient.length = n
  lower : box.lower.length = n ∨ box.lower.length = 1
  upper : box.upper.length = n ∨ box.upper.length = 1

/-- Cuts of one dimension are compared without a fault. -/
theorem Spans.exists_isDominated? {n : ℕ} {box : Box α} {c d : Cut α} (hc : c.Spans n box)
    (hd : d.Spans n box) (sense : Sense) :
    ∃ dominated, c.isDominated? sense box d = .ok dominated := by
  have hcommon : commonLength [c.gradient.length, d.gradient.length, box.lower.length,
      box.upper.length] = n := by
    rw [hc.slopes, hd.slopes]
    refine commonLength_eq_of_single fun m hm => ?_
    simp only [List.mem_cons, List.not_mem_nil, or_false] at hm
    rcases hm with rfl | rfl | rfl | rfl
    · exact .inl rfl
    · exact .inl rfl
    · exact hc.lower
    · exact hc.upper
  obtain ⟨as, has⟩ := Option.isSome_iff_exists.mp (isSome_stretch? (.inl hc.slopes))
  obtain ⟨bs, hbs⟩ := Option.isSome_iff_exists.mp (isSome_stretch? (.inl hd.slopes))
  obtain ⟨lower, hlower⟩ := Option.isSome_iff_exists.mp (isSome_stretch? hc.lower)
  obtain ⟨upper, hupper⟩ := Option.isSome_iff_exists.mp (isSome_stretch? hc.upper)
  simp [isDominated?, hc.numeric, hd.numeric, hcommon, has, hbs, hlower, hupper]

end Cut

namespace Pool

variable {p q : Pool α}

/-- A pool in which no stored cut is dominated by one at another place. -/
def Antichain (p : Pool α) : Prop := ∀ i j : Fin p.cuts.length, i ≠ j →
  p.dominates? (p.cuts.get i) (p.cuts.get j) = .ok false

theorem antichain_iff : p.Antichain ↔ p.cuts.Pairwise p.Incomparable := by
  rw [List.pairwise_iff_getElem]
  constructor
  · intro h i j hi hj hlt
    exact ⟨h ⟨i, hi⟩ ⟨j, hj⟩ (Fin.ne_of_lt hlt), h ⟨j, hj⟩ ⟨i, hi⟩ (Fin.ne_of_gt hlt)⟩
  · intro h i j hne
    rcases lt_or_gt_of_ne hne with hlt | hgt
    · exact (h i j i.2 j.2 hlt).1
    · exact (h j i j.2 i.2 hgt).2

/-- What a pool is asked, it stays thinned. -/
theorem Thinned.after (hp : p.Thinned) (call : Call α) : (call.after p).Thinned := by
  cases call with
  | add c => exact Call.after_add c p ▸ hp.add c
  | prune => exact Call.after_prune p ▸ hp.prune

theorem thinned_serve (sense : Sense) (box : Box α) (pruning : Bool) (calls : List (Call α)) :
    (serve calls (empty sense box pruning)).Thinned := by
  induction calls using List.reverseRecOn with
  | nil => exact thinned_empty sense box pruning
  | append_singleton calls call ih => exact serve_concat calls call _ ▸ ih.after call

theorem bare_serve (calls : List (Call α)) (p : Pool α) : (serve calls p).bare = p.bare := by
  induction calls using List.reverseRecOn with
  | nil => rfl
  | append_singleton calls call ih => rw [serve_concat, (call.grows (serve calls p)).bare, ih]

/-! ### What pruning leaves -/

variable {c d : Cut α} {i j : ℕ}

/-- Of two cuts neither of which yields to the other one, neither is dominated. -/
theorem incomparable_of_yields (hlt : i < j) (hc : p.yields c i d j = .ok false)
    (hd : p.yields d j c i = .ok false) :
    p.Incomparable c d := by
  rw [yields, if_neg hlt.ne'] at hc
  rw [yields, if_neg hlt.ne] at hd
  obtain ⟨b, hb, hc⟩ := ok_of_bind hc
  obtain ⟨b', hb', hd⟩ := ok_of_bind hd
  -- a dominated earlier cut goes in any case
  have hbfalse : b = false := by
    cases b with
    | false => rfl
    | true =>
      rw [if_pos rfl, if_pos hlt] at hc
      cases hc
  subst hbfalse
  -- a dominated later cut goes unless the earlier one is dominated as well
  cases b' with
  | false => exact ⟨hb, hb'⟩
  | true =>
    rw [if_pos rfl, if_neg hlt.not_gt, hb] at hd
    cases hd

theorem yields_of_incomparable (h : i ≠ j → p.dominates? c d = .ok false) :
    p.yields c i d j = .ok false := by
  unfold yields
  by_cases hij : j = i
  · rw [if_pos hij]
    rfl
  · rw [if_neg hij, h (Ne.symm hij)]
    rfl

theorem pairwise_undominated {kept : List (Cut α)} (h : p.undominated = .ok kept) :
    kept.Pairwise p.Incomparable := by
  obtain ⟨numbered, hnumbered, h⟩ := ok_of_bind h
  cases h
  have hsub := sublist_of_filterM hnumbered
  have hgrowing : numbered.Pairwise fun x y => x.2 < y.2 := by
    refine List.Pairwise.sublist hsub (List.pairwise_map.mp ?_)
    rw [List.zipIdx_map_snd]
    exact List.pairwise_lt_range'
  have hstays (x : Cut α × ℕ) (hx : x ∈ numbered) (y : Cut α × ℕ) (hy : y ∈ numbered) :
      p.yields x.1 x.2 y.1 y.2 = .ok false := by
    obtain ⟨goes, hgoes, hstay⟩ := ok_of_bind (of_mem_filterM hnumbered hx)
    obtain rfl : goes = false := by simpa using Except.ok.inj hstay
    exact of_anyM_false hgoes (hsub.subset hy)
  refine List.pairwise_map.mpr (hgrowing.imp_of_mem fun {x y} hx hy hlt => ?_)
  exact incomparable_of_yields hlt (hstays x hx y hy) (hstays y hy x hx)

theorem antichain_of_prune {n : ℕ} (h : prune.on p = (.ok n, q)) : q.Antichain := by
  simp only [Run.on, prune] at h
  split at h
  · cases h
  · next kept hkept =>
    have hpairwise := pairwise_undominated hkept
    split_ifs at h with hremoved
    · obtain rfl := (Prod.mk.inj h).2
      have hall : kept = p.cuts := (sublist_of_undominated hkept).eq_of_length_le (by omega)
      exact antichain_iff.mpr (hall ▸ hpairwise)
    · obtain rfl := (Prod.mk.inj h).2
      exact antichain_iff.mpr (hpairwise.imp fun hcd => hcd.of_bare rfl)

/-- Where every comparison has an outcome, the cuts that yield to none are left. -/
theorem undominated_ok {goes : Cut α × ℕ → Cut α × ℕ → Bool}
    (h : ∀ x ∈ p.cuts.zipIdx, ∀ y ∈ p.cuts.zipIdx, p.yields x.1 x.2 y.1 y.2 = .ok (goes x y)) :
    p.undominated = .ok ((p.cuts.zipIdx.filter fun x => !p.cuts.zipIdx.any (goes x)).map
      (·.1)) := by
  have hkept : p.cuts.zipIdx.filterM (fun x => do
      return !(← p.cuts.zipIdx.anyM fun (y : Cut α × ℕ) => p.yields x.1 x.2 y.1 y.2)) =
      .ok (p.cuts.zipIdx.filter fun x => !p.cuts.zipIdx.any (goes x)) := by
    refine filterM_ok fun x hx => ?_
    rw [anyM_ok fun y hy => h x hx y hy]
    rfl
  exact congrArg (· >>= fun kept => pure (kept.map (·.1))) hkept

/-- Where no stored cut is dominated, there is nothing to prune. -/
theorem Antichain.prune_eq (hp : p.Antichain) : prune.on p = (.ok 0, p) := by
  have hstays (x : Cut α × ℕ) (hx : x ∈ p.cuts.zipIdx) (y : Cut α × ℕ) (hy : y ∈ p.cuts.zipIdx) :
      p.yields x.1 x.2 y.1 y.2 = .ok false := by
    obtain ⟨hi, hx⟩ := List.getElem?_eq_some_iff.mp (List.mem_zipIdx_iff_getElem?.mp hx)
    obtain ⟨hj, hy⟩ := List.getElem?_eq_some_iff.mp (List.mem_zipIdx_iff_getElem?.mp hy)
    rw [← hx, ← hy]
    exact yields_of_incomparable fun hne => hp ⟨x.2, hi⟩ ⟨y.2, hj⟩ (Fin.ne_of_val_ne hne)
  have hall : p.undominated = .ok p.cuts := by
    have hany : p.cuts.zipIdx.any (fun _ => false) = false := List.any_eq_false.mpr fun _ _ =>
      Bool.false_ne_true
    simp [undominated_ok hstays, hany]
  simp [Run.on, prune, hall]

/-- A pool of cuts of one dimension is pruned without a fault. -/
theorem exists_prune {n : ℕ} (h : ∀ c ∈ p.cuts, c.Spans n p.box) :
    ∃ removed q, prune.on p = (.ok removed, q) := by
  have hyields (x : Cut α × ℕ) (hx : x ∈ p.cuts.zipIdx) (y : Cut α × ℕ) (hy : y ∈ p.cuts.zipIdx) :
      ∃ goes, p.yields x.1 x.2 y.1 y.2 = .ok goes := by
    have hx' := h _ (List.fst_mem_of_mem_zipIdx hx)
    have hy' := h _ (List.fst_mem_of_mem_zipIdx hy)
    obtain ⟨b, hb⟩ := hx'.exists_isDominated? hy' p.sense
    obtain ⟨b', hb'⟩ := hy'.exists_isDominated? hx' p.sense
    refine ⟨if y.2 = x.2 then false else if b then (if x.2 < y.2 then true else !b') else false, ?_⟩
    rw [yields, show p.dominates? x.1 y.1 = _ from hb, show p.dominates? y.1 x.1 = _ from hb']
    split_ifs <;> cases b <;> simp_all [bind, Except.bind, pure, Except.pure]
  choose! goes hgoes using hyields
  simp only [Run.on, prune, undominated_ok hgoes]
  split_ifs
  · exact ⟨_, _, rfl⟩
  · exact ⟨_, _, rfl⟩

theorem spans_serve {n : ℕ} {box : Box α} {calls : List (Call α)}
    (h : ∀ c ∈ arrivals calls, c.Spans n box) (sense : Sense)
    (pruning : Bool) : ∀ c ∈ (serve calls (empty sense box pruning)).cuts,
    c.Spans n box.effective := by
  intro c hc
  obtain ⟨i, hi, rfl⟩ := List.mem_mapIdx.mp ((books_serve sense box pruning calls).stored.subset hc)
  obtain ⟨hnumeric, hslopes, hlower, hupper⟩ := h _ (List.getElem_mem hi)
  exact ⟨hnumeric,
    hslopes, by simpa [Box.effective] using hlower, by simpa [Box.effective] using hupper⟩

/-- Whatever is asked of a new pool that prunes on arrival, no stored cut is dominated by another
one, and pruning it finds nothing. Any pool stores no dominated cut once it has been pruned, and
pruning it once more answers zero and leaves it as it is. Where the cuts that arrived are numbers of
one dimension, pruning has an answer. -/
theorem serve_antichain (sense : Sense) (box : Box α) (pruning : Bool) (calls : List (Call α)) :
    let p := serve calls (empty sense box pruning)
    (pruning = true → p.Antichain ∧ prune.on p = (.ok 0, p)) ∧
    (∀ n, (∀ c ∈ arrivals calls, c.Spans n box) → ∃ removed q, prune.on p = (.ok removed, q)) ∧
    ∀ (p : Pool α) (removed : ℕ) (q : Pool α),
    prune.on p = (.ok removed, q) → q.Antichain ∧ prune.on q = (.ok 0, q) := by
  intro p
  refine ⟨fun hpruning => ?_, fun n h => ?_, fun p removed q h => ?_⟩
  · have hprunes : p.pruning = pruning :=
      (congrArg Pool.pruning (bare_serve calls (empty sense box pruning)) :)
    have hantichain : p.Antichain :=
      antichain_iff.mpr (thinned_serve sense box pruning calls (hprunes.trans hpruning))
    exact ⟨hantichain, hantichain.prune_eq⟩
  · have hbox : p.box = box.effective :=
      (congrArg Pool.box (bare_serve calls (empty sense box pruning)) :)
    exact exists_prune (hbox ▸ spans_serve h sense pruning)
  · have hantichain := antichain_of_prune h
    exact ⟨hantichain, hantichain.prune_eq⟩

/-- Of three lines over the half line one goes when they are pruned. -/
theorem serve_antichain_lines :
    (serve (lines.map .add) (empty .minimize ⟨[.fin 0], [.above]⟩ true)).Antichain ∧
    ∃ q, prune.on (serve (lines.map .add) (empty .minimize ⟨[.fin 0], [.above]⟩ false)) =
      (.ok 1, q) ∧
      q.Antichain ∧ prune.on q = (.ok 0, q) := by
  have hspans : ∀ c ∈ arrivals (lines.map .add), c.Spans 1 ⟨[.fin 0], [.above]⟩ := by
    intro c hc
    simp only [arrivals, lines, List.map_cons, List.map_nil, List.filterMap_cons,
      List.filterMap_nil, Call.arrival?,
      List.mem_cons, List.not_mem_nil, or_false] at hc
    rcases hc with rfl | rfl | rfl <;> exact ⟨rfl, rfl, .inl rfl, .inl rfl⟩
  obtain ⟨-, hreturns, hpruned⟩ := serve_antichain .minimize ⟨[.fin 0], [.above]⟩ false
    (lines.map Call.add)
  obtain ⟨removed, q, hrun⟩ := hreturns 1 hspans
  have hremoved :
      (prune.on (serve (lines.map .add) (empty .minimize ⟨[.fin 0], [.above]⟩ false))).1.toOption =
      some 1 := by
    decide +kernel
  obtain rfl : removed = 1 := by simpa [hrun, Except.toOption] using hremoved
  exact ⟨((serve_antichain .minimize ⟨[.fin 0], [.above]⟩ true (lines.map Call.add)).1 rfl).1, q,
    hrun, hpruned _ _ _ hrun⟩

end Pool

end Recourse
