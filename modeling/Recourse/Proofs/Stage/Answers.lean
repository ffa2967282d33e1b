import Recourse.Proofs.Multistage.History

/-! What the outcomes of a model are, whatever was done with it before: for each sample, the value
that the solver finds for the program of the incoming values, the sample and the stored cuts, and
the dual prices of the rows that link the model to the stage before. -/

namespace Recourse.Stage

open Run (Keeps Triple)

variable {α : Type} [Scalar α] {m M M' : Stage α} {arrival : Arrival α} {lp : Solver α} {k : ℕ}
  {result : α × List α}

/-- The price that an optimum puts on a row of the model, whose rows come before those of the
cuts. -/
def priceOf (m : Stage α) (o : Optimum α) (id : ℕ) : α :=
  (((m.rows.map (·.id)).zip o.duals).lookup id).getD 0

/-- The outcome of a sample: the value and the prices of the links, of the program that belongs to
it. -/
def Answers (m : Stage α) (arrival : Arrival α) (lp : Solver α) (cuts : List (Cut α)) (k : ℕ)
    (result : α × List α) : Prop :=
  ∃ Q o, Q.anonymous = (m.request arrival (.int k) cuts).anonymous ∧ lp Q = .optimal o ∧
    result = (o.value, m.linkRows.map (m.priceOf o))

variable [Numeral α]

theorem Entered.answers (h : m.Entered arrival M) (hm : m.Settled)
    (hrun : (Stage.solveScenario lp k).on M = (.ok result, M')) :
    m.Answers arrival lp M.cuts k result := by
  rw [solveScenario_eq] at hrun
  obtain ⟨x, M₁, hsolve, hrun⟩ := Run.exists_of_bind hrun
  cases hrun
  have hkept := Keeps.iff_on.mp (solveFor_keeps hm (.int k) (.int k) "backward" lp M.pool?) M
    ⟨h, rfl⟩
  rw [hsolve] at hkept
  obtain ⟨M₂, -, hM₂, ⟨e, -, hfail⟩ | ⟨hprogram, -, hask⟩⟩ :=
    h.solveFor hm (.int k) (.int k) "backward"
  · rw [hfail lp] at hsolve
    cases hsolve
  rw [hask lp] at hsolve
  have hlinks : M'.links ++ M'.noiseLinks = m.linkRows := by
    obtain ⟨as, bs, rows, -, -, hM'⟩ := hkept.1
    exact (congrArg linkRows hM'.frame :)
  rcases hverdict : lp M₂.program with o | _ | _ | _ <;>
    simp only [Run.on, Stage.optimize, hverdict] at hsolve
  · refine ⟨M₂.program, o, hprogram, hverdict, ?_⟩
    rw [hlinks]
    cases hsolve
    cases hM₂.optimize (.optimal o) "backward" (.int k) with
    | ok halike =>
      exact congrArg (o.value, ·)
        (List.map_congr_left fun id hid => halike.price id (hm.links id hid))
  all_goals cases hsolve

theorem Entered.outcomes_triple (hm : m.Settled) (pool : Option (Pool α)) :
    Triple (fun M => m.Entered arrival M ∧ M.pool? = pool) (Stage.solveScenarios lp)
      (fun o _ => ∃ results, List.Forall₂ (m.Answers arrival lp ((pool.map Pool.cuts).getD []))
        (List.range m.sampleCount) results ∧
        o = { values := results.map (·.1), gradients := results.map (·.2) })
      fun _ => True := by
  refine Triple.get_bind fun M hM => ?_
  have hcount : M.sampleCount = m.sampleCount := by
    obtain ⟨as, bs, rows, -, -, hM⟩ := hM.1
    exact (congrArg sampleCount hM.frame :)
  have hscenario (k : ℕ) : Triple (fun M => m.Entered arrival M ∧ M.pool? = pool)
      (Stage.solveScenario lp k)
      (fun result M => (m.Entered arrival M ∧ M.pool? = pool) ∧
      m.Answers arrival lp ((pool.map Pool.cuts).getD []) k result)
      fun _ => True := by
    intro M hM
    refine ⟨fun result M' hrun => ⟨?_, ?_⟩, fun _ _ _ => trivial⟩
    · have hkept := Keeps.iff_on.mp (solveScenario_keeps hm k lp pool) M hM
      rwa [hrun] at hkept
    · rw [← hM.2]
      exact hM.1.answers hm hrun
  rw [hcount]
  refine Triple.bind (fun s hs => Triple.mapM (fun k _ => hscenario k) s (hs ▸ hM)) fun results =>
    ?_
  exact Triple.pure fun _ h => ⟨results, h.2, rfl⟩

theorem outcomes_answers (hm : m.Settled) (state : List α) (noise : Option (List α))
    (pool : Option (Pool α)) :
    Triple (fun M => m.Kept M ∧ M.pool? = pool) (do enterIncoming state noise; solveScenarios lp)
      (fun o _ => ∃ results,
        List.Forall₂ (m.Answers (some (state, noise)) lp ((pool.map Pool.cuts).getD []))
        (List.range m.sampleCount) results ∧
        o = { values := results.map (·.1), gradients := results.map (·.2) })
      fun _ => True := by
  rintro M ⟨hM, hpool⟩
  obtain ⟨M', hrun, hpool', -, hok⟩ := hM.enterIncoming hm state noise
  rcases hr : ((Stage.enterIncoming state noise).on m).1 with e | _
  · rw [hr] at hrun
    rw [Run.bind_error _ hrun]
    exact ⟨fun _ _ h => (nomatch h), fun _ _ _ => trivial⟩
  · rw [hr] at hrun
    rw [Run.bind_ok _ hrun]
    exact Entered.outcomes_triple hm pool M' ⟨hok hr, hpool'.trans hpool⟩

end Recourse.Stage
