import Recourse.Proofs.Cut.Ledger

/-! Pools in which no stored cut is dominated by another one. A pool that prunes as cuts arrive
always is such a pool; so its cuts, brought to an empty pool in their order, are all stored there
again. -/

namespace Recourse

variable {α : Type} [Scalar α]

/-- Cuts that are the same affine function, whatever they are called and where they come from. -/
structure Cut.Alike (c d : Cut α) : Prop where
  intercept : d.intercept = c.intercept
  gradient : d.gradient = c.gradient
  hasText : d.hasText = c.hasText

theorem Cut.Alike.isDominated?_eq {c c' d d' : Cut α} (hc : c.Alike c') (hd : d.Alike d')
    (sense : Sense) (box : Box α) :
    c'.isDominated? sense box d' = c.isDominated? sense box d := by
  unfold isDominated?
  rw [hc.hasText, hd.hasText, hc.gradient, hd.gradient]
  simp only [isDominated, Cut.gradient, dominanceTolerance, hc.intercept, hd.intercept]

namespace Pool

variable {p : Pool α} {c d : Cut α}

/-- Cuts neither of which is dominated by the other one. -/
def Incomparable (p : Pool α) (c d : Cut α) : Prop :=
  p.dominates? c d = .ok false ∧ p.dominates? d c = .ok false

/-- A pool that stores no dominated cut, if it is one that prunes. -/
def Thinned (p : Pool α) : Prop := p.pruning = true → p.cuts.Pairwise p.Incomparable

theorem Incomparable.alike {c' d' : Cut α} (h : p.Incomparable c d) (hc : c.Alike c')
    (hd : d.Alike d') : p.Incomparable c' d' :=
  ⟨(hc.isDominated?_eq hd p.sense p.box).trans h.1, (hd.isDominated?_eq hc p.sense p.box).trans h.2⟩

theorem thinned_empty (sense : Sense) (box : Box α) (pruning : Bool) :
    (empty sense box pruning).Thinned :=
  fun _ => .nil

/-- The cuts after screening are incomparable if those before were. -/
theorem pairwise_of_screen {cuts : List (Cut α)} (hp : p.cuts.Pairwise p.Incomparable)
    (h : p.screen c = .ok (some cuts)) :
    cuts.Pairwise p.Incomparable := by
  obtain ⟨dominated, hdominated, h⟩ := ok_of_bind h
  cases dominated with
  | true => cases h
  | false =>
    obtain ⟨survivors, hsurvivors, h⟩ := ok_of_bind h
    cases h
    have hsub := sublist_of_filterM hsurvivors
    refine List.pairwise_append.mpr ⟨hp.sublist hsub, List.pairwise_singleton _ _,
      fun d hd d' hd' => ?_⟩
    obtain rfl := List.mem_singleton.mp hd'
    obtain ⟨b, hb, hkept⟩ := ok_of_bind (of_mem_filterM hsurvivors hd)
    obtain rfl : b = false := by simpa using Except.ok.inj hkept
    exact ⟨hb, of_anyM_false hdominated (hsub.subset hd)⟩

theorem Thinned.add (hp : p.Thinned) (c : Cut α) : ((Pool.add c).on p).2.Thinned := by
  intro hpruning
  have hsame : ((Pool.add c).on p).2.pruning = p.pruning :=
    (congrArg Pool.pruning (grows_add c p).bare :)
  rw [hsame] at hpruning
  simp only [Run.on, Pool.add, if_pos hpruning]
  split
  · exact hp hpruning
  · exact hp hpruning
  · next cuts hscreen =>
    have hp' : p.cuts.Pairwise ({ p with issued := p.issued + 1 } : Pool α).Incomparable :=
      hp hpruning
    exact (pairwise_of_screen hp' hscreen :)

theorem Thinned.prune (hp : p.Thinned) : (Pool.prune.on p).2.Thinned := by
  rcases prune_cases p with hrun | ⟨kept, hkept, -, hrun⟩ <;> rw [hrun]
  · exact hp
  · exact fun hpruning => (hp hpruning).sublist hkept

def stored (p : Pool α) (c : Cut α) : Pool α :=
  { p with
    cuts := p.cuts ++ [{ c with index := some p.issued }]
    issued := p.issued + 1, version := p.version + 1 }

omit [Scalar α] in
theorem cuts_foldl_stored (cs : List (Cut α)) (p : Pool α) :
    (cs.foldl stored p).cuts = p.cuts ++ cs.mapIdx
    fun i c => { c with index := some (p.issued + i) } := by
  induction cs generalizing p with
  | nil => simp
  | cons c cs ih =>
    rw [List.foldl_cons, ih]
    simp [stored, List.mapIdx_cons, Nat.add_assoc, Nat.add_comm 1]

/-- A cut that is incomparable with those that are stored is stored behind them. -/
theorem add_incomparable (h : p.pruning = true → ∀ d ∈ p.cuts, p.Incomparable d c) :
    (add c).on p = (.ok (some { c with index := some p.issued }), p.stored c) := by
  have hnumbered : c.Alike { c with index := some p.issued } := ⟨rfl, rfl, rfl⟩
  simp only [Run.on, add]
  split_ifs with hpruning
  · have hincomparable (d : Cut α) (hd : d ∈ p.cuts) :
        p.Incomparable d { c with index := some p.issued } :=
      (h hpruning d hd).alike ⟨rfl, rfl, rfl⟩ hnumbered
    have hany : (p.cuts.anyM fun d => p.dominates? { c with index := some p.issued } d) =
        .ok false := by
      rw [anyM_ok fun d hd => (hincomparable d hd).2]
      simp
    have hsurvivors : p.survivors { c with index := some p.issued } = .ok p.cuts := by
      rw [survivors, filterM_ok (g := fun _ => true) fun d hd => ?_]
      · simp
      · rw [(hincomparable d hd).1]
        rfl
    have hscreen : ({ p with issued := p.issued + 1 } : Pool α).screen
        { c with index := some p.issued } =
        .ok (some (p.cuts ++ [{ c with index := some p.issued }])) := by
      change p.screen { c with index := some p.issued } = _
      rw [screen, hany]
      change (do return some ((← p.survivors { c with index := some p.issued }) ++ _) : Except
        (Fault α) _) = _
      rw [hsurvivors]
      rfl
    rw [hscreen]
    simp [stored]
  · rfl

theorem Incomparable.of_bare {q : Pool α} (h : q.bare = p.bare) (hcd : p.Incomparable c d) :
    q.Incomparable c d := by
  have hsame : q.bare.Incomparable = p.bare.Incomparable := congrArg Incomparable h
  exact (congrFun (congrFun hsame c) d ▸ hcd : q.bare.Incomparable c d)

theorem pairwise_stored {c' : Cut α} {cs : List (Cut α)}
    (h : (p.cuts ++ c :: cs).Pairwise p.Incomparable) (hc : c.Alike c') :
    ((p.stored c').cuts ++ cs).Pairwise (p.stored c').Incomparable := by
  obtain ⟨hcuts, hrest, happart⟩ := List.pairwise_append.mp h
  obtain ⟨hcs, hrest⟩ := List.pairwise_cons.mp hrest
  have hc' : c.Alike { c' with index := some p.issued } := ⟨hc.intercept, hc.gradient, hc.hasText⟩
  have hpairwise : (p.cuts ++ [{ c' with index := some p.issued }] ++ cs).Pairwise
      p.Incomparable := by
    rw [List.append_assoc, List.singleton_append]
    refine List.pairwise_append.mpr ⟨hcuts, List.pairwise_cons.mpr ⟨fun d hd => ?_, hrest⟩,
      fun d hd d' hd' => ?_⟩
    · exact (hcs d hd).alike hc' ⟨rfl, rfl, rfl⟩
    · rcases List.mem_cons.mp hd' with rfl | hd'
      · exact (happart d hd c List.mem_cons_self).alike ⟨rfl, rfl, rfl⟩ hc'
      · exact happart d hd d' (List.mem_cons_of_mem _ hd')
  exact hpairwise.imp fun hcd => hcd.of_bare rfl

end Pool

end Recourse
