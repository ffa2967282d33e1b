import Recourse.Proofs.Multistage.Draws
import Recourse.Proofs.Multistage.Passes
import Recourse.Proofs.Multistage.Tally
import Recourse.Proofs.Multistage.Dimensions

/-! The weights of the outcomes of a stage. If the probabilities of all reachable models were
accepted for as many samples as these models have, each outcome is weighed with the probability of
the move to its Markov state and of its sample there. -/

namespace Recourse

open RiskMeasure (Distribution)

variable {α : Type} [Field α] [LinearOrder α] [Numeral α]

namespace Stage

variable {m : Stage α}

theorem Weighted.length_probabilities (h : m.Weighted) :
    m.probabilities.length = m.sampleCount := by
  rcases hq : m.probability with _ | q
  · simp [probabilities, hq]
  · simpa [probabilities, hq] using (h.fits hq).1

variable [IsStrictOrderedRing α]

omit [Numeral α] in
theorem pos_of_sumsToOne {q : List α} (h : sumsToOne q = true) : 0 < q.sum := by
  have hnear := of_decide_eq_true h
  rw [Scalar.abs_eq, Scalar.ratio_eq, Scalar.total_eq_sum] at hnear
  have hone := (le_abs_self _).trans hnear
  norm_num at hone
  linarith

theorem Weighted.nonneg (h : m.Weighted) : ∀ x ∈ m.probabilities, 0 ≤ x := by
  intro x hx
  rcases hq : m.probability with _ | q
  · rw [Multistage.probabilities_none hq] at hx
    rw [List.eq_of_mem_replicate hx, Scalar.ratio_eq]
    positivity
  · have hsame : m.probabilities = q := by simp [probabilities, hq]
    exact (h.fits hq).2 x (hsame ▸ hx)

theorem Weighted.sum_pos (h : m.Weighted) : 0 < m.probabilities.sum := by
  rcases hq : m.probability with _ | q
  · have hcount : (0 : α) < m.sampleCount := Nat.cast_pos.mpr h.count
    rw [Multistage.probabilities_none hq, List.sum_replicate, Scalar.ratio_eq, nsmul_eq_mul]
    positivity
  · obtain ⟨d, m₀, -, hok, hset⟩ := h.accepted q hq
    have htriple := setProbability_triple (I := fun _ => True)
      (Q := fun s => ∃ q, s.probability = some q ∧ 0 < q.sum) d
      fun s q _ _ _ hsum => ⟨q, rfl, pos_of_sumsToOne hsum⟩
    obtain ⟨q', hq', hpos⟩ := (htriple m₀ trivial).1 () _ (Prod.ext hok rfl)
    obtain rfl := Option.some.inj (hset.symm.trans hq')
    simpa [probabilities, hq] using hpos

end Stage

namespace Multistage

variable {P : Multistage α} {t j k : ℕ} {m : Stage α}

/-- What an outcome is judged with. -/
theorem Weighted.outcomeProbabilities_eq (hw : P.Weighted) {weights : List α}
    (h : P.outcomeProbabilities t j = .ok weights) :
    weights = (P.places t).map (P.placeWeight t j) := by
  rw [places, List.map_flatMap]
  exact outcomeProbabilities_ok
    (fun k hk m hm => (map_placeWeight hm (hw t k m hk hm).length_probabilities).symm) h

variable [IsStrictOrderedRing α]

omit [Numeral α] in
private theorem exists_pos_of_sum_pos {xs : List α} (h : 0 < xs.sum) : ∃ x ∈ xs, 0 < x :=
  List.exists_lt_of_sum_lt (fun _ => 0) id (by simpa using h)

variable (hp : P.Charted) (hw : P.Weighted) (ht : t + 1 < P.horizon) (hj : j ∈ P.reachableStates t)
include hp hw ht hj

theorem Charted.placeWeight_nonneg {k s : ℕ} (hk : k ∈ P.reachableStates (t + 1)) :
    0 ≤ P.placeWeight (t + 1) j (k, s) := by
  obtain ⟨m, hm, -⟩ := hp.exists_model (hp.lt_counts hk).2
  refine mul_nonneg (hp.transitionAt_nonneg ht hj k) ?_
  rw [hm, Option.map_some, Option.getD_some, List.getD_eq_getElem?_getD]
  rcases hx : m.probabilities[s]? with _ | x
  · exact le_rfl
  · exact (hw (t + 1) k m hk hm).nonneg x (List.mem_of_getElem? hx)

theorem Charted.exists_placeWeight_pos : ∃ place ∈ P.places (t + 1),
    0 < P.placeWeight (t + 1) j place := by
  obtain ⟨x, hx, hmove⟩ := exists_pos_of_sum_pos (hp.transition_eq ht hj).2.2.2
  obtain ⟨k, hk⟩ := List.mem_iff_getElem?.mp hx
  have hpos : 0 < P.transitionAt (t + 1) j k := by
    change 0 < (P.moves (t + 1) j).getD k 0
    rwa [List.getD_eq_getElem?_getD, hk]
  have hreach := (hp.mem_reachableStates_succ ht).mpr ⟨j, hj, hpos⟩
  obtain ⟨m, hm, -⟩ := hp.exists_model (hp.lt_counts hreach).2
  have hweighted := hw (t + 1) k m hreach hm
  obtain ⟨y, hy, hsample⟩ := exists_pos_of_sum_pos hweighted.sum_pos
  obtain ⟨s, hs⟩ := List.mem_iff_getElem?.mp hy
  refine ⟨(k, s), List.mem_flatMap.mpr ⟨k, hreach, ?_⟩, mul_pos hpos ?_⟩
  · have hlt : s < m.sampleCount :=
      hweighted.length_probabilities ▸ (List.getElem?_eq_some_iff.mp hs).1
    simpa [placesOf, hm] using hlt
  · simpa [hm, List.getD_eq_getElem?_getD, hs] using hsample

/-- If the moves and the samples are distributions, so are the outcomes. -/
theorem Charted.distribution_places (hmoves : Distribution (P.moves (t + 1) j))
    (hsamples : ∀ k ∈ P.reachableStates (t + 1),
      ∀ m, P.stageAt (t + 1) k = some m → Distribution m.probabilities) :
    Distribution ((P.places (t + 1)).map (P.placeWeight (t + 1) j)) := by
  refine distribution_places_of_closed
    (fun k hk => (hp.mem_reachableStates_succ ht).mpr ⟨j, hj, hk⟩) hmoves fun k hk => ?_
  obtain ⟨m, hm, -⟩ := hp.exists_model (hp.lt_counts hk).2
  exact ⟨m, hm, hsamples k hk m hm, (hw (t + 1) k m hk hm).length_probabilities⟩

end Multistage

/-! ### A crossroads -/

namespace Problems

open Multistage (create prepare write)

/-- On the second stage the road divides, and from then on each branch is kept to. On the third
stage there are purchases, and the second branch has a certain demand. -/
def branchSteps : List (Multistage.WriteStep ℚ) :=
  let purchase : Stage.BuildStep ℚ :=
    .column { name := .text "purchase", lower := .int 0, upper := .int 99, cost := .int 1 }
  [.chain (.list [.list [.list [.int 1]], .list [.list [.real (1 / 2), .real (1 / 2)]],
      .list [.list [.int 1, .int 0], .list [.int 0, .int 1]]]),
    .model 0 0 storage, .model 1 0 storage, .model 1 1 storage, .model 2 0 storage,
    .model 2 1 storage,
    .model 2 0 purchase, .model 2 1 purchase,
    .model 2 1 (.row ⟨[(1, 2), (2, 1)], 0, .atLeast, 3⟩ (.text "demand") none)]

def doubtfulDemand : Multistage.WriteStep ℚ :=
  .model 2 0 (.row ⟨[(1, 1), (2, 1)], 0, .atLeast, 0⟩ (.text "demand")
    (some (.record [("rhs", .list [.int 5, .int 10])])))

/-- Both demands of the first branch are equally likely. On the third stage the worst case
counts. -/
def crossroadsSteps : List (Multistage.WriteStep ℚ) :=
  branchSteps ++ [doubtfulDemand, .model 2 0 (.probability evenOdds),
    .measure { name := "WorstCase", parameters := [] } (.list [.int 2])]

/-- Here the first branch was certain before its demand became doubtful. On the third stage the
whole tail counts. -/
def hurriedSteps : List (Multistage.WriteStep ℚ) :=
  branchSteps ++ [.model 2 0 (.probability (.list [.real 1])), doubtfulDemand,
    .measure { name := "AVaR", parameters := [("a", .int 1)] } (.list [.int 2])]

theorem weighted_of_scenarios {P : Multistage ℚ}
    (h : ∀ x ∈ P.models.flatten.map fun m => (m.sampleCount, m.probability),
    x = (1, none) ∨ x = (2, some [1 / 2, 1 / 2])) : P.Weighted := by
  intro t k m _ hm
  obtain ⟨ms, hms, hm⟩ := Option.bind_eq_some_iff.mp hm
  have hmem : m ∈ P.models.flatten :=
    List.mem_flatten.mpr ⟨ms, List.mem_of_getElem? hms, List.mem_of_getElem? hm⟩
  rcases h _ (List.mem_map_of_mem hmem) with hscenarios | hscenarios <;>
    obtain ⟨hcount, hprobability⟩ := Prod.mk.inj hscenarios
  · exact ⟨by omega, fun q hq => absurd (hprobability.symm.trans hq) (Option.some_ne_none q).symm⟩
  · obtain ⟨hok, hset⟩ := setProbability_evenOdds
    exact ⟨by omega, fun q hq => ⟨_, _, hcount.symm, hok, hset.trans (hprobability.symm.trans hq)⟩⟩

theorem crossroads_prepared : ∃ p P₀ : Multistage ℚ, create (outline (.int 3) (.int 0)) = .ok p ∧
    (write crossroadsSteps p).prepared = false ∧
    prepare.on (write crossroadsSteps p) = (.ok (), P₀) ∧ P₀.Weighted ∧
    P₀.horizon = 3 ∧ P₀.reachableStates 1 = [0, 1] ∧ P₀.reachableStates 2 = [0, 1] ∧
    P₀.chain.matrices[2]? = some [[1, 0], [0, 1]] ∧
    (P₀.stageAt 2 0).map Stage.sampleCount = some 2 ∧
    (P₀.stageAt 2 1).map Stage.sampleCount = some 1 := by
  obtain ⟨p, hp, hunprepared, hok, hscenarios, hfacts⟩ :
    ∃ p : Multistage ℚ, p ∈ (create (outline (.int 3) (.int 0))).toOption ∧
      (write crossroadsSteps p).prepared = false ∧
      (prepare.on (write crossroadsSteps p)).1.isOk = true ∧
      (prepare.on (write crossroadsSteps p)).2.models.flatten.map
      (fun m => (m.sampleCount, m.probability)) =
        [(1, none), (1, none), (1, none), (2, some [1 / 2, 1 / 2]), (1, none)] ∧
      (prepare.on (write crossroadsSteps p)).2.horizon = 3 ∧
      (prepare.on (write crossroadsSteps p)).2.reachableStates 1 = [0, 1] ∧
      (prepare.on (write crossroadsSteps p)).2.reachableStates 2 = [0, 1] ∧
      (prepare.on (write crossroadsSteps p)).2.chain.matrices[2]? = some [[1, 0], [0, 1]] ∧
      ((prepare.on (write crossroadsSteps p)).2.stageAt 2 0).map Stage.sampleCount = some 2 ∧
      ((prepare.on (write crossroadsSteps p)).2.stageAt 2 1).map Stage.sampleCount = some 1 := by
      decide +kernel
  refine ⟨p, _, ok_of_toOption hp, hunprepared, Run.on_of_isOk hok,
    weighted_of_scenarios fun x hx => ?_, hfacts⟩
  rw [hscenarios] at hx
  simp only [List.mem_cons, List.not_mem_nil, or_false] at hx
  obtain hx | hx | hx | hx | hx := hx
  exacts [.inl hx, .inl hx, .inl hx, .inr hx, .inl hx]

/-- One probability of one, but it stands with the worse of the two demands. -/
theorem tail_hurried {worse : ℚ} (h : worse ∈ [9, 6]) :
    (RiskMeasure.tail 1).apply .minimize [4, worse, 1] [[-1], [-1], [-2]] (some [0, 1]) =
      .ok { value := worse, gradient := some [-1] } := by
  have horder : RiskMeasure.worstFirst .minimize [4, worse, 1] = [1, 0, 2] := by
    simp only [List.mem_cons, List.not_mem_nil, or_false] at h
    rcases h with rfl | rfl <;> cbv
  have hlevel : RiskMeasure.checkLevel (1 : ℚ) = .ok () := ok_of_toOption (by decide +kernel)
  have hspent : RiskMeasure.weightsInOrder [1, 0, 2] 3 [0, 1] 1 = .ok [0, 1, (0 : ℚ)] :=
    ok_of_toOption (by decide +kernel)
  have hweights : RiskMeasure.tailWeights .minimize [4, worse, 1] [0, 1] 1 = .ok [0, 1, 0] := by
    rw [RiskMeasure.tailWeights, horder]
    exact hspent
  have hvalue : Scalar.dot [0, 1, 0] [4, worse, 1] = worse := by simp [Scalar.dot, Scalar.total]
  have hgradient : Scalar.weightedRows 1 [0, 1, 0] [[-1], [-1], [-2]] = [(-1 : ℚ)] := by
    decide +kernel
  calc (RiskMeasure.tail 1).apply .minimize [4, worse, 1] [[-1], [-1], [-2]] (some [0, 1])
      = (RiskMeasure.checkLevel 1 >>=
      fun _ => RiskMeasure.tailWeights .minimize [4, worse, 1] [0, 1] 1 >>= fun q =>
          RiskMeasure.weigh q [4, worse, 1] [[-1], [-1], [-2]]) := rfl
    _ = RiskMeasure.weigh [0, 1, 0] [4, worse, 1] [[-1], [-1], [-2]] := by
      rw [hlevel, hweights]
      rfl
    _ = .ok { value := Scalar.dot [0, 1, 0] [4, worse, 1]
              gradient := some (Scalar.weightedRows 1 [0, 1, 0] [[-1], [-1], [-2]]) } := rfl
    _ = .ok { value := worse, gradient := some [-1] } := by rw [hvalue, hgradient]

theorem hurried_prepared : ∃ p P₀ : Multistage ℚ, create (outline (.int 3) (.int 0)) = .ok p ∧
    prepare.on (write hurriedSteps p) = (.ok (), P₀) ∧ P₀.reachableStates 2 = [0, 1] ∧
    P₀.transitionAt 2 1 0 = 0 ∧
    ∀ worse ∈ [9, 6],
    ∃ c, P₀.cutFor 2 1 { values := [4, worse, 1], gradients := [[-1], [-1], [-2]] } [1]
      (some []) = .ok c ∧
      c.intercept = worse + 1 ∧ c.slopes = [-1] ∧ c.noiseSlopes = [] := by
  obtain ⟨p, hp, hok, hstates, hmove, hsense, hweights, hmeasure, hcuts⟩ :
      ∃ p : Multistage ℚ, p ∈ (create (outline (.int 3) (.int 0))).toOption ∧
      (prepare.on (write hurriedSteps p)).1.isOk = true ∧
      (prepare.on (write hurriedSteps p)).2.reachableStates 2 = [0, 1] ∧
      (prepare.on (write hurriedSteps p)).2.transitionAt 2 1 0 = 0 ∧
      (prepare.on (write hurriedSteps p)).2.sense = .minimize ∧
      ((prepare.on (write hurriedSteps p)).2.outcomeProbabilities 2 1).toOption = some [0, 1] ∧
      (∃ choice ∈ (prepare.on (write hurriedSteps p)).2.measures[2]?,
      ∃ measure ∈ choice.measure.toOption,
        (match measure with | .tail a => some a | _ => none) = some 1) ∧
      ∀ worse ∈ [9, 6],
      ∃ c ∈ ((prepare.on (write hurriedSteps p)).2.model (2 - 1 : ℕ) (1 : ℕ) >>= fun m =>
          m.newCut { value := worse, gradient := some [-1] } [1] (some []) (2 - 1 : ℕ)
            (1 : ℕ)).toOption,
        c.intercept = worse + 1 ∧ c.slopes = [-1] ∧ c.noiseSlopes = [] := by decide +kernel
  have hprepare := Run.on_of_isOk hok
  generalize (prepare.on (write hurriedSteps p)).2 =
    P₀ at hprepare hstates hmove hsense hweights hmeasure hcuts
  obtain ⟨choice, hchoice, measure, hmeasure, hlevel⟩ := hmeasure
  obtain rfl : measure = .tail 1 := by
    cases measure with
    | tail a => rw [Option.some.inj hlevel]
    | _ => cases hlevel
  refine ⟨p, P₀, ok_of_toOption hp, hprepare, hstates, hmove, fun worse hworse => ?_⟩
  obtain ⟨c, hc, hfacts⟩ := hcuts worse hworse
  have hjudge : P₀.judge 2 1 { values := [4, worse, 1], gradients := [[-1], [-1], [-2]] } =
      .ok { value := worse, gradient := some [-1] } := by
    have hentry : (entryAt P₀.measures 2 : Except (Fault ℚ) _) = .ok choice := by
      rw [entryAt, Option.mem_def.mp hchoice]
    rw [Multistage.judge, ok_of_toOption hweights, hentry, hsense]
    change (choice.measure >>= fun m => m.apply .minimize _ _ _) = _
    rw [ok_of_toOption hmeasure]
    exact tail_hurried hworse
  refine ⟨c, ?_, hfacts⟩
  rw [Multistage.cutFor, hjudge]
  exact ok_of_toOption hc

end Problems

end Recourse
