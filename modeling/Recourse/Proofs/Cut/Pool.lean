import Recourse.Proofs.Run
import Recourse.Proofs.Cut.Dominance
import Recourse.Cut.Pool

/-! Pools whose cuts fit their box. On them no comparison fails, so what a pool does with an
arriving cut comes down to filtering by the dominance relation. -/

namespace Recourse

variable {α : Type} [Field α] [LinearOrder α]

namespace Cut

/-- Whether a cut has as many slopes as a box has coordinates, all of them numbers. -/
structure Fits (c : Cut α) (box : Box α) : Prop where
  numeric : c.hasText = false
  lower : box.lower.length = c.gradient.length
  upper : box.upper.length = c.gradient.length

omit [Field α] [LinearOrder α] in
theorem Fits.withIndex {c : Cut α} {box : Box α} (h : c.Fits box) (i : Option ℕ) :
    ({ c with index := i } : Cut α).Fits box :=
  ⟨h.numeric, h.lower, h.upper⟩

/-- Cuts that fit a box are compared without a fault. -/
theorem isDominated?_eq (sense : Sense) {box : Box α} {c other : Cut α} (hc : c.Fits box)
    (ho : other.Fits box) : c.isDominated? sense box other = .ok
    (c.isDominated sense box other) := by
  have hlen : other.gradient.length = c.gradient.length := by rw [← ho.lower, hc.lower]
  have hn : commonLength [c.gradient.length, other.gradient.length, box.lower.length,
      box.upper.length] =
      c.gradient.length :=
    commonLength_eq (by simp) (by simp [hlen, hc.lower, hc.upper])
  simp only [isDominated?, hn, stretch?_eq hlen, stretch?_eq hc.lower, stretch?_eq hc.upper,
    stretch?_eq (rfl : c.gradient.length = _), hc.numeric, ho.numeric]
  simp [isDominated, gradient, dominanceTolerance]

end Cut

namespace Pool

def Fitting (p : Pool α) : Prop := ∀ c ∈ p.cuts, c.Fits p.box

def Dominates (p : Pool α) (c other : Cut α) : Prop := c.isDominated p.sense p.box other = true

variable {p : Pool α} {c : Cut α}

theorem survivors_eq (hp : p.Fitting) (hc : c.Fits p.box) :
    p.survivors c = .ok (p.cuts.filter fun other => !other.isDominated p.sense p.box c) := by
  refine filterM_ok fun other ho => ?_
  rw [dominates?, Cut.isDominated?_eq p.sense (hp other ho) hc]
  rfl

theorem screen_eq (hp : p.Fitting) (hc : c.Fits p.box) :
    p.screen c = .ok (if p.cuts.any fun other => c.isDominated p.sense p.box other then none
      else some ((p.cuts.filter fun other => !other.isDominated p.sense p.box c) ++ [c])) := by
  have hany : p.cuts.anyM (fun other => p.dominates? c other) =
      .ok (p.cuts.any fun other => c.isDominated p.sense p.box other) :=
    anyM_ok fun other ho => Cut.isDominated?_eq p.sense hc (hp other ho)
  rw [screen, hany, survivors_eq hp hc]
  cases p.cuts.any fun other => c.isDominated p.sense p.box other <;> rfl

/-- What a pool that prunes does with an arriving cut. -/
theorem add_of_pruning (h : p.pruning = true) (c : Cut α) :
    (add c).on p = match p.screen { c with index := some p.issued } with
      | .error e => (.error e, { p with issued := p.issued + 1 })
      | .ok none => (.ok none, { p with issued := p.issued + 1, pruned := p.pruned + 1 })
      | .ok (some cuts) => (.ok (some { c with index := some p.issued }), { p with
          cuts
          issued := p.issued + 1
          pruned := p.pruned + (p.cuts.length + 1 - cuts.length)
          version := p.version + 1 }) := by
  obtain ⟨sense, box, pruning, cuts, issued, pruned, version⟩ := p
  obtain rfl : pruning = true := h
  rfl

theorem screen_ok {cuts : List (Cut α)} (h : p.screen c = .ok (some cuts)) :
    ∃ kept, p.survivors c = .ok kept ∧ cuts = kept ++ [c] := by
  obtain ⟨dominated, -, h⟩ := ok_of_bind h
  cases dominated with
  | true => cases h
  | false =>
    obtain ⟨kept, hkept, h⟩ := ok_of_bind h
    cases h
    exact ⟨kept, hkept, rfl⟩

/-- Whatever an arriving cut brings about, nothing else enters the pool. -/
theorem add_subset {r : Except (Fault α) (Option (Cut α))} {p' : Pool α}
    (h : (add c).on p = (r, p')) :
    ∀ d ∈ p'.cuts, d ∈ p.cuts ∨ d = { c with index := some p.issued } := by
  cases hpruning : p.pruning with
  | false =>
    have hrun : (add c).on p = (.ok (some { c with index := some p.issued }), { p with
        issued := p.issued + 1, cuts := p.cuts ++ [{ c with index := some p.issued }]
        version := p.version + 1 }) := by
      simp [Run.on, add, hpruning]
    rw [hrun] at h
    obtain rfl := (Prod.mk.inj h).2
    simp
  | true =>
    rw [add_of_pruning hpruning] at h
    rcases hscreen : p.screen { c with index := some p.issued } with e | _ | cuts
    all_goals
      rw [hscreen] at h
      obtain rfl := (Prod.mk.inj h).2
    · exact fun d hd => .inl hd
    · exact fun d hd => .inl hd
    · intro d hd
      obtain ⟨kept, hkept, rfl⟩ := screen_ok hscreen
      rcases List.mem_append.mp hd with hd | hd
      · exact .inl ((sublist_of_filterM hkept).subset hd)
      · exact .inr (List.mem_singleton.mp hd)

end Pool

end Recourse
