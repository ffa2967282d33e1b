import Recourse.Proofs.Multistage.History

/-! What work leaves alone, on any problem. All work on a model comes down to right-hand sides that
are set, cuts that are attached and programs that are solved, so what these keep is kept by all
work. They change neither the columns of a model nor what its probabilities and its links are, and
so a walk finds the same scenario tree on each stage. -/

namespace Recourse

open Run (Keeps Triple)

variable {α β : Type}

namespace Stage

variable [Scalar α] [Numeral α]

/-- A property of a model that is kept by whatever solving it consists of. -/
structure Steady (I : Stage α → Prop) : Prop where
  putRhs : ∀ id x, Keeps I (putRhs id x)
  attach : Keeps I attach
  optimize : ∀ lp phase sample, Keeps I (optimize lp phase sample)

namespace Steady

variable {I : Stage α → Prop} (h : Steady I)
include h

/-! ### Right-hand sides -/

theorem setRhs (id : ℕ) (x : α) : Keeps I (setRhs id x) := by
  unfold Stage.setRhs
  split_ifs
  · exact Triple.throw_bind fun _ hm => hm
  · exact h.putRhs id x

theorem setRhsAll (ids : List ℕ) (xs : List α) : Keeps I (setRhsAll ids xs) := by
  unfold Stage.setRhsAll
  split_ifs
  · exact Triple.throw_bind fun _ hm => hm
  · exact Triple.forM fun a _ => h.putRhs a.1 a.2

theorem enterSample (k : ℤ) (r : RandomRhs α) : Keeps I (enterSample k r) := by
  cases r with
  | single row samples => exact Keeps.bind .ofExcept fun x => h.setRhs row x
  | block rows samples => exact Keeps.bind .ofExcept fun xs => h.setRhsAll rows xs

theorem enterScenario (d : Datum α) : Keeps I (enterScenario d) :=
  .get_bind fun _ => Triple.forM fun r _ => Keeps.bind .ofExcept fun k => h.enterSample k r

theorem enterIncoming (state : List α) (noise : Option (List α)) :
    Keeps I (enterIncoming state noise) := by
  refine .get_bind fun m => ?_
  cases noise with
  | none => exact .ite ((h.setRhsAll _ _).bind fun _ => .ite .throw .pure) (.ite .throw .pure)
  | some noise =>
    have hnoise : Keeps I (if !m.noiseLinks.isEmpty then Stage.setRhsAll m.noiseLinks noise
        else pure ()) :=
      .ite (h.setRhsAll _ noise) .pure
    exact .ite ((h.setRhsAll _ _).bind fun _ => hnoise) hnoise

/-! ### Solving -/

variable (lp : Solver α)

theorem solve (phase : String) (sample : Datum α) : Keeps I (solve lp phase sample) :=
  h.attach.bind fun _ => h.optimize lp phase sample

theorem follow (discount : α) (t : ℕ) (k s : Datum α) (arrival : Arrival α) :
    Keeps I (follow lp discount t k s arrival) := by
  have harrival : Keeps I (enterArrival arrival) := by
    cases arrival with
    | none => exact .pure
    | some entry => exact h.enterIncoming _ _
  exact harrival.bind fun _ =>
    (h.enterScenario s).bind fun _ => (h.solve lp _ _).bind fun _ => .get_bind fun _ => .pure

theorem solveScenarios : Keeps I (solveScenarios lp) := by
  refine .get_bind fun m => Keeps.bind ?_ fun results => .pure
  have hscenario (k : ℕ) : Keeps I (solveScenario lp k) :=
    (h.enterScenario _).bind fun _ => (h.solve lp _ _).bind fun _ => .get_bind fun _ => .pure
  exact Keeps.of_triple (Triple.mapM (S := fun _ _ => True)
    fun k _ => (hscenario k).and_pure trivial)

theorem estimate : Keeps I (estimate lp) :=
  (h.enterScenario _).bind fun _ => (h.solve lp _ _).bind fun _ => .pure

end Steady

/-! ### What solving does not change -/

omit [Scalar α] [Numeral α] in
theorem bare_attach (m : Stage α) (attached : CostToGo α → List (ℕ × ℕ))
    (version : CostToGo α → ℕ) :
    ({ m with costToGo := m.costToGo.map fun ctg =>
      { ctg with attached := attached ctg, version := version ctg } } : Stage α).bare = m.bare := by
  rw [bare, bare]
  cases m.costToGo <;> rfl

/-- What attaches cuts one by one, and then takes rows away, keeps what both do. -/
theorem attach_keeps {I : Stage α → Prop} (hattach : ∀ lagged c, Keeps I (attachCut lagged c))
    (hdetach : Keeps I detach) :
    Keeps I attach := by
  refine .get_bind fun m => ?_
  rcases m.costToGo with _ | ctg
  · exact .pure
  · exact .ite .pure (Keeps.bind (Triple.forM fun c _ => hattach _ c) fun _ => hdetach)

theorem attachCut_bare (b : Stage α) (lagged : Bool) (c : Cut α) :
    Keeps (fun m => m.bare = b) (attachCut lagged c) := by
  refine .get_bind fun m => .bind .ofExcept fun _ => ?_
  rcases m.costToGoColumn with _ | column
  · exact .throw
  · dsimp only
    split_ifs
    · exact Triple.throw_bind fun _ h => h
    · refine Keeps.bind (Keeps.iff_on.mpr fun _ h => h) fun id => Triple.modify fun m hm => ?_
      exact (bare_attach m (fun ctg => ctg.attached ++ [(c.index.getD 0, id)])
        CostToGo.version).trans hm

omit [Scalar α] [Numeral α] in
theorem detach_bare (b : Stage α) : Keeps (fun m => m.bare = b) (detach : Edit α Unit) := by
  refine Triple.get_bind fun m hm => ?_
  rcases hctg : m.costToGo with _ | ctg
  · exact Triple.pure fun s hs => hs ▸ hm
  · have hremoved (ids : List ℕ) : Triple (· = m) (removeRows ids : Edit α Unit)
        (fun _ s => s.bare = b ∧ s.costToGo = some ctg) (fun s => s.bare = b) := by
      rintro _ rfl
      simp only [Run.on, removeRows]
      split_ifs
      all_goals
        refine ⟨fun _ s hrun => ?_, fun e s hrun => ?_⟩ <;> cases hrun
        exact ⟨hm, hctg⟩
    refine Triple.bind (hremoved _) fun _ => Triple.modify fun s hs => ?_
    rw [← hs.1, bare, bare, hs.2]
    rfl

theorem bare_steady (b : Stage α) : Steady fun m : Stage α => m.bare = b where
  putRhs := fun _ _ => Keeps.iff_on.mpr fun _ h => h
  attach := attach_keeps (attachCut_bare b) (detach_bare b)
  optimize := fun lp phase sample => Keeps.iff_on.mpr fun m hm => by
    simp only [Run.on, optimize]
    split <;> exact hm

end Stage

/-! ### Problems -/

namespace Multistage

theorem onModel_skeleton {t k : ℕ} {act : Stage.Edit α β}
    (h : ∀ b : Stage α, Keeps (fun m => m.bare = b) act) (S : Multistage α) :
    Keeps (fun P => P.skeleton = S) (onModel t k act) := by
  refine Keeps.iff_on.mpr fun P hP => ?_
  rcases hm : P.stageAt t k with _ | m
  · rwa [onModel_on_none hm]
  · rw [onModel_on_some hm]
    exact (skeleton_put hm (Keeps.iff_on.mp (h m.bare) m rfl)).trans hP

variable [Scalar α] [Numeral α]

theorem visit_skeleton (lp : Solver α) (t : ℕ) (k s : Datum α) (previous : Option (Visit α))
    (S : Multistage α) :
    Keeps (fun P => P.skeleton = S) (visit lp t k s previous) :=
  visit_keeps_of fun _ _ _ =>
    onModel_skeleton (fun b => (Stage.bare_steady b).follow lp _ t k s _) S

end Multistage

end Recourse
