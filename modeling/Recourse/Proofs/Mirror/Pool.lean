import Recourse.Proofs.Cut.Pool
import Recourse.Proofs.Mirror.Measure

/-! Pools of cuts seen from the other side, where each cut is negated. One cut dominates another one
there exactly if it does here, so a pool takes, drops and numbers the same cuts. -/

namespace Recourse

variable {α : Type} [Field α] [LinearOrder α]

/-- A cut from the other side. Entries of a table, which only a cut that was read has, are not
touched. -/
def Cut.mirror (c : Cut α) : Cut α :=
  { c with
    intercept := -c.intercept, slopes := c.slopes.map (-·), noiseSlopes := c.noiseSlopes.map (-·) }

def Pool.mirror (p : Pool α) : Pool α :=
  { p with sense := p.sense.opposite, cuts := p.cuts.map Cut.mirror }

namespace Cut

theorem map_mirror_concat (cuts : List (Cut α)) (c : Cut α) :
    cuts.map mirror ++ [c.mirror] = (cuts ++ [c]).map mirror := by
  rw [List.map_append, List.map_singleton]

theorem gradient_mirror (c : Cut α) : c.mirror.gradient = c.gradient.map (-·) := by
  rw [gradient, gradient, List.map_append]
  rfl

theorem hasText_mirror (c : Cut α) : c.mirror.hasText = c.hasText := by
  have hreal (xs : List α) : (xs.map Datum.real).any Datum.isText = false := by
    rw [List.any_map]
    exact List.any_eq_false.mpr fun x _ => by simp [Datum.isText]
  obtain ⟨stage, markovState, intercept, slopes, noiseSlopes, index, entries⟩ := c
  cases entries with
  | none => exact (hreal _).trans (hreal _).symm
  | some entries => rfl

theorem slopeExcess_mirror (sense : Sense) (a b : α) :
    slopeExcess sense.opposite (-a) (-b) = slopeExcess sense a b := by
  have hexcess : sense.opposite.orient (-a - -b) = sense.orient (a - b) := by
    rw [← sense.orient_opposite_neg (a - b), neg_sub_neg, neg_sub]
  simp only [slopeExcess, hexcess]

theorem slopeExtent_mirror (sense : Sense) (box : Box α) (as bs : List α) :
    slopeExtent sense.opposite box (as.map (-·)) (bs.map (-·)) = slopeExtent sense box as bs := by
  rw [slopeExtent, slopeExtent, List.zipWith_map]
  simp only [slopeExcess_mirror]

variable [IsStrictOrderedRing α]

theorem isDominated_mirror (sense : Sense) (box : Box α) (c other : Cut α) :
    isDominated sense.opposite box c.mirror other.mirror = isDominated sense box c other := by
  have hintercept : sense.opposite.orient (-c.intercept - -other.intercept) = sense.orient
      (c.intercept - other.intercept) := by
    rw [← sense.orient_opposite_neg (c.intercept - other.intercept), neg_sub_neg, neg_sub]
  have htolerance : c.mirror.dominanceTolerance = c.dominanceTolerance := by
    rw [dominanceTolerance, dominanceTolerance, Scalar.abs_eq, Scalar.abs_eq]
    exact congrArg (fun x => _ * (1 + x)) (abs_neg c.intercept)
  rw [isDominated, isDominated, gradient_mirror, gradient_mirror, slopeExtent_mirror, htolerance]
  exact congrArg (fun x => (((Extent.fin x).add _).leNumber _ : Bool)) hintercept

theorem isDominated?_mirror (sense : Sense) (box : Box α) (c other : Cut α) :
    c.mirror.isDominated? sense.opposite box other.mirror = c.isDominated? sense box other := by
  have hfitted (as bs : List α) (box : Box α) :
      isDominated sense.opposite box { c.mirror with slopes := as.map (-·), noiseSlopes := [] }
        { other.mirror with slopes := bs.map (-·), noiseSlopes := [] } =
      isDominated sense box { c with slopes := as, noiseSlopes := [] }
      { other with slopes := bs, noiseSlopes := [] } :=
    isDominated_mirror sense box { c with slopes := as, noiseSlopes := [] }
      { other with slopes := bs, noiseSlopes := [] }
  unfold isDominated?
  simp only [hasText_mirror, gradient_mirror, List.length_map, stretch?_map]
  split_ifs
  · rfl
  · rcases stretch? _ c.gradient with _ | as
    · rfl
    rcases stretch? _ other.gradient with _ | bs
    · rfl
    rcases stretch? _ box.lower with _ | lower
    · rfl
    rcases stretch? _ box.upper with _ | upper
    · rfl
    exact congrArg Except.ok (hfitted as bs ⟨lower, upper⟩)

end Cut

namespace Pool

theorem add_of_not_pruning {p : Pool α} (h : p.pruning = false) (c : Cut α) :
    (add c).on p = (.ok (some { c with index := some p.issued }), { p with
      cuts := p.cuts ++ [{ c with index := some p.issued }]
      issued := p.issued + 1
      version := p.version + 1 }) := by
  simp [Run.on, add, h]

variable [IsStrictOrderedRing α] (p : Pool α) (c : Cut α)

theorem dominates?_mirror (other : Cut α) :
    p.mirror.dominates? c.mirror other.mirror = p.dominates? c other :=
  Cut.isDominated?_mirror p.sense p.box c other

theorem survivors_mirror : p.mirror.survivors c.mirror = (p.survivors c).map
    (List.map Cut.mirror) :=
  filterM_map (fun other => by rw [dominates?_mirror]) p.cuts

theorem screen_mirror : p.mirror.screen c.mirror = (p.screen c).map
    (Option.map (List.map Cut.mirror)) := by
  have hany : p.mirror.cuts.anyM (fun other => p.mirror.dominates? c.mirror other) =
      p.cuts.anyM fun other => p.dominates? c other := anyM_map (p.dominates?_mirror c) p.cuts
  rw [screen, screen, hany, survivors_mirror]
  rcases p.cuts.anyM fun other => p.dominates? c other with e | dominated
  · rfl
  · cases dominated with
    | true => rfl
    | false =>
      cases p.survivors c with
      | error e => rfl
      | ok cuts => exact congrArg (fun cuts => Except.ok (some cuts)) (Cut.map_mirror_concat cuts c)

theorem add_mirror : (add c.mirror).on p.mirror =
    (((add c).on p).1.map (Option.map Cut.mirror), ((add c).on p).2.mirror) := by
  cases hpruning : p.pruning with
  | false =>
    rw [add_of_not_pruning hpruning, add_of_not_pruning
      (show p.mirror.pruning = false from hpruning)]
    exact congrArg (fun cuts =>
      (_, { p.mirror with cuts, issued := p.issued + 1, version := p.version + 1 }))
      (Cut.map_mirror_concat p.cuts { c with index := some p.issued })
  | true =>
    have hscreen : p.mirror.screen { c.mirror with index := some p.mirror.issued } = _ :=
      screen_mirror p { c with index := some p.issued }
    rw [add_of_pruning hpruning, add_of_pruning
      (show p.mirror.pruning = true from hpruning), hscreen]
    rcases p.screen { c with index := some p.issued } with e | _ | cuts
    · rfl
    · rfl
    · simp only [Except.map, Option.map_some, List.length_map, Pool.mirror]
      rfl

end Pool

end Recourse
