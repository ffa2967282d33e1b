import Recourse.Proofs.Stage.Support

/-! The outcomes of a joined model: at given incoming values, all its scenarios are solved, and the
value of each and the prices of its links support the cost of all decisions. -/

namespace Recourse.Junction

open Run (Triple)

variable {α : Type} [Field α] [LinearOrder α] [Numeral α]
variable {j : Junction α} {m : Stage α} {k : ℕ} {xs : List α}

/-- Whether a value and prices of the links, found at some incoming values, support the cost of all
decisions of a scenario. -/
structure Supports (j : Junction α) (xs : List α) (k : ℕ) (result : α × List α) : Prop where
  length : result.2.length = j.ids.length
  le : ∀ y q, j.Decides k y q →
    j.base.sense.orient (result.1 + Scalar.dot result.2
        (List.zipWith (· - ·) (j.copies.map fun i => y.getD i 0) xs)) ≤
      j.base.sense.orient
        (j.base.program.objective y + (j.alpha.map fun column => column.cost * q).getD 0)

theorem Joined.atRest_of_scenario {L : ℕ → α → Prop} (h : j.Joined (j.InScenario k) L m) :
    j.AtRest L m := by
  refine h.mono (fun r₀ _ v hv => ?_) fun _ _ _ _ hv => hv
  have hrandom : ∀ a ∈ j.base.assignments k, a.1 ∈ j.randomRows := by
    intro a ha
    obtain ⟨e, he, ha⟩ := List.mem_flatMap.mp ha
    refine List.mem_flatMap.mpr ⟨e, he, ?_⟩
    cases e with
    | single row samples => simp_all [RandomRhs.assignments, RandomRhs.rows]
    | block rows samples => exact (List.of_mem_zip ha).1
  exact After.loose ⟨r₀.rhs, .inl rfl, hv⟩ hrandom

variable [IsStrictOrderedRing α] {lp : Solver α}

theorem solveScenario_triple (hj : j.Sound) (hlp : lp.Exact)
    (hxs : xs.length = j.ids.length) (k : ℕ) :
    Triple (j.AtRest fun i v => xs[i]? = some v) (Stage.solveScenario lp k)
      (fun result m => j.AtRest (fun i v => xs[i]? = some v) m ∧ j.Supports xs k result)
      (j.AtRest fun i v => xs[i]? = some v) := by
  refine Triple.bind (enterScenario_triple hj _) fun _ => ?_
  refine Triple.bind (Q := fun x m => j.Joined (j.InScenario k) (fun i v => xs[i]? = some v) m ∧
    Solved lp m x)
    ((solve_triple lp _ _).conseq (fun _ hm => hm.2 k rfl) (fun _ _ hm => hm)
    fun _ hm => hm.atRest_of_scenario)
    fun x => ?_
  refine Triple.get_bind fun _ hm => Triple.pure ?_
  rintro m rfl
  obtain ⟨hm, hx⟩ := hm
  have hids : m.links ++ m.noiseLinks = j.ids := by
    rw [hm.frame]
    rfl
  rw [hids]
  exact ⟨hm.atRest_of_scenario, by simp, fun y q h => hm.support hj hlp hx hxs h⟩

theorem solveScenarios_triple (hj : j.Sound) (hlp : lp.Exact) (hxs : xs.length = j.ids.length) :
    Triple (j.AtRest fun i v => xs[i]? = some v) (Stage.solveScenarios lp)
      (fun o m => j.AtRest (fun i v => xs[i]? = some v) m ∧ ∃ results,
        List.Forall₂ (j.Supports xs) (List.range j.base.sampleCount) results ∧
        o = { values := results.map (·.1), gradients := results.map (·.2) })
      (j.AtRest fun i v => xs[i]? = some v) := by
  refine Triple.get_bind fun m hm => ?_
  have hcount : m.sampleCount = j.base.sampleCount := by rw [hm.frame]
  rw [hcount]
  refine Triple.bind (Q := fun results m => j.AtRest (fun i v => xs[i]? = some v) m ∧
      List.Forall₂ (j.Supports xs) (List.range j.base.sampleCount) results)
    (fun s hs => Triple.mapM (fun k _ => solveScenario_triple hj hlp hxs k) s (hs ▸ hm))
    fun results => ?_
  exact Triple.pure fun m hm => ⟨hm.1, results, hm.2, rfl⟩

theorem outcomes_triple (hj : j.Sound) (hlp : lp.Exact) (state : List α) (noise : Option (List α)) :
    Triple (j.AtRest AnyLink) (do Stage.enterIncoming state noise; Stage.solveScenarios lp)
      (fun o m => j.AtRest AnyLink m ∧ (j.incoming state noise).length = j.ids.length ∧ ∃ results,
        List.Forall₂ (j.Supports (j.incoming state noise)) (List.range j.base.sampleCount) results ∧
        o = { values := results.map (·.1), gradients := results.map (·.2) })
      (j.AtRest AnyLink) := by
  refine Triple.bind (enterIncoming_triple hj state noise) fun _ m hm => ?_
  exact (solveScenarios_triple hj hlp hm.2).conseq (fun _ h => h)
    (fun _ _ h => ⟨h.1.anyLink, hm.2, h.2⟩)
    (fun _ h => h.anyLink) m hm.1

end Recourse.Junction
