import Mathlib.Logic.Relation
import Recourse.Proofs.Multistage.Passes

/-! Workers in backward passes that run at the same time. A worker goes through the stages
backwards; at each stage it solves one model after the other at its trial point, and then it adds a
cut to one model after the other. Between any two of these steps other workers may take steps of
their own, on the same problem. -/

namespace Recourse

open Run (Triple Keeps)

/-- Where a worker is in a backward pass: between stages, with the trial points of the stages before
`n` still ahead, or at the trial point of stage `t`. There it still has to solve some models of the
stage after, and to add a cut to some models of the stage itself. -/
inductive Phase (α : Type) where
  | ahead (n : ℕ)
  | refining (t : ℕ) (state : List α) (noise : Option (List α)) (models targets : List ℕ)
    (found : List (Outcomes α))

structure Worker (α : Type) where
  states : List (List α)
  noises : List (Option (List α))
  phase : Phase α

variable {α : Type}

namespace Worker

variable [Scalar α] [Numeral α]

/-- The next step of a worker: it reads a trial point, solves one model, or adds one cut. -/
def step (lp : Solver α) (w : Worker α) : Run α (Multistage α) (Worker α) :=
  match w.phase with
  | .ahead 0 => pure w
  | .ahead (t + 1) => do
    let state ← Run.ofExcept (entryAt w.states t)
    let noise ← Run.ofExcept (entryAt w.noises t)
    let p ← get
    return { w with
      phase := .refining t state noise (p.reachableStates (t + 1)) (p.reachableStates t) [] }
  | .refining t state noise (k :: models) targets found => do
    let o ← Multistage.outcomes lp (t + 1) k state noise
    return { w with phase := .refining t state noise models targets (found ++ [o]) }
  | .refining t state noise [] (j :: targets) found => do
    Multistage.refineAt (t + 1) j (Multistage.gather found) state noise
    return { w with phase := .refining t state noise [] targets found }
  | .refining t _ _ [] [] _ => return { w with phase := .ahead t }

/-! ### A worker alone -/

variable {lp : Solver α} {P P' : Multistage α} {states : List (List α)}
  {noises : List (Option (List α))}
  {state : List α} {noise : Option (List α)} {t : ℕ}

def Advances (lp : Solver α) (x y : Worker α × Multistage α) : Prop :=
  (x.1.step lp).on x.2 = (.ok y.1, y.2)

private theorem solve_all {models targets : List ℕ} {found results : List (Outcomes α)}
    (h : (models.mapM fun k => Multistage.outcomes lp (t + 1) k state noise).on P =
      (.ok results, P')) :
    Relation.ReflTransGen (Advances lp)
      (⟨states, noises, .refining t state noise models targets found⟩, P)
      (⟨states, noises, .refining t state noise [] targets (found ++ results)⟩, P') := by
  induction models generalizing found results P with
  | nil =>
    rw [List.mapM_nil] at h
    cases h
    rw [List.append_nil]
  | cons k models ih =>
    rw [List.mapM_cons] at h
    obtain ⟨o, Q, ho, h⟩ := Run.exists_of_bind h
    obtain ⟨rest, Q', hrest, h⟩ := Run.exists_of_bind h
    cases h
    have hstep : Advances lp
        (⟨states, noises, .refining t state noise (k :: models) targets found⟩, P)
        (⟨states, noises, .refining t state noise models targets (found ++ [o])⟩, Q) :=
        Run.bind_ok _ ho
    rw [List.append_cons]
    exact .head hstep (ih hrest)

private theorem refine_all {targets : List ℕ} {found : List (Outcomes α)}
    (h : (targets.forM fun j => Multistage.refineAt (t + 1) j
      (Multistage.gather found) state noise).on P =
      (.ok (), P')) :
    Relation.ReflTransGen (Advances lp)
      (⟨states, noises, .refining t state noise [] targets found⟩, P)
      (⟨states, noises, .ahead t⟩, P') := by
  induction targets generalizing P with
  | nil =>
    cases h
    exact .single rfl
  | cons j targets ih =>
    obtain ⟨_, Q, hj, h⟩ := Run.exists_of_bind h
    have hstep : Advances lp (⟨states, noises, .refining t state noise [] (j :: targets) found⟩, P)
        (⟨states, noises, .refining t state noise [] targets found⟩, Q) := Run.bind_ok _ hj
    exact .head hstep (ih h)

/-- A backward pass is a worker whom nobody interrupts. -/
theorem advances_of_refineFrom {n : ℕ}
    (h : (Multistage.refineFrom lp states noises n).on P = (.ok (), P')) :
    Relation.ReflTransGen (Advances lp) (⟨states, noises, .ahead n⟩, P)
      (⟨states, noises, .ahead 0⟩, P') := by
  induction n generalizing P with
  | zero =>
    cases h
    exact .refl
  | succ t ih =>
    obtain ⟨state, Q, hstate, h⟩ := Run.exists_of_bind h
    obtain rfl : P = Q := congrArg Prod.snd hstate
    obtain ⟨noise, Q', hnoise, h⟩ := Run.exists_of_bind h
    obtain rfl : P = Q' := congrArg Prod.snd hnoise
    obtain ⟨_, R, hstage, h⟩ := Run.exists_of_bind h
    rw [Multistage.refineStage, Run.bind_ok _ (Run.get_on P)] at hstage
    obtain ⟨found, S, hfound, hstage⟩ := Run.exists_of_bind hstage
    rw [Nat.add_sub_cancel] at hstage
    have hread : Advances lp (⟨states, noises, .ahead (t + 1)⟩, P)
        (⟨states, noises, .refining t state noise (P.reachableStates (t + 1))
        (P.reachableStates t) []⟩, P) :=
      (Run.bind_ok _ hstate).trans (Run.bind_ok _ hnoise)
    exact .head hread ((solve_all hfound).trans ((refine_all hstage).trans (ih h)))

def Stops (lp : Solver α) (x : Worker α × Multistage α) (e : Fault α) (P' : Multistage α) : Prop :=
  ∃ y, Relation.ReflTransGen (Advances lp) x y ∧ (y.1.step lp).on y.2 = (.error e, P')

variable {e : Fault α}

theorem Stops.after {x y : Worker α × Multistage α} (h : Stops lp y e P')
    (hxy : Relation.ReflTransGen (Advances lp) x y) :
    Stops lp x e P' := by
  obtain ⟨z, hyz, hstop⟩ := h
  exact ⟨z, hxy.trans hyz, hstop⟩

private theorem solve_some {models targets : List ℕ} {found : List (Outcomes α)}
    (h : (models.mapM fun k => Multistage.outcomes lp (t + 1) k state noise).on P =
      (.error e, P')) :
    Stops lp (⟨states, noises, .refining t state noise models targets found⟩, P) e P' := by
  induction models generalizing found P with
  | nil => cases h
  | cons k models ih =>
    rw [List.mapM_cons] at h
    rcases Run.error_of_bind h with ho | ⟨o, Q, ho, h⟩
    · exact ⟨_, .refl, Run.bind_error _ ho⟩
    rcases Run.error_of_bind h with hrest | ⟨rest, Q', -, h⟩
    · have hstep : Advances lp
          (⟨states, noises, .refining t state noise (k :: models) targets found⟩, P)
          (⟨states, noises, .refining t state noise models targets (found ++ [o])⟩, Q) :=
          Run.bind_ok _ ho
      exact (ih hrest).after (.single hstep)
    · cases h

private theorem refine_some {targets : List ℕ} {found : List (Outcomes α)}
    (h : (targets.forM fun j => Multistage.refineAt (t + 1) j
      (Multistage.gather found) state noise).on P =
      (.error e, P')) :
    Stops lp (⟨states, noises, .refining t state noise [] targets found⟩, P) e P' := by
  induction targets generalizing P with
  | nil => cases h
  | cons j targets ih =>
    rcases Run.error_of_bind h with hj | ⟨_, Q, hj, h⟩
    · exact ⟨_, .refl, Run.bind_error _ hj⟩
    · have hstep : Advances lp
          (⟨states, noises, .refining t state noise [] (j :: targets) found⟩, P)
          (⟨states, noises, .refining t state noise [] targets found⟩, Q) := Run.bind_ok _ hj
      exact (ih h).after (.single hstep)

/-- A backward pass that fails is a worker who fails. -/
theorem stops_of_refineFrom {n : ℕ}
    (h : (Multistage.refineFrom lp states noises n).on P = (.error e, P')) :
    Stops lp (⟨states, noises, .ahead n⟩, P) e P' := by
  induction n generalizing P with
  | zero => cases h
  | succ t ih =>
    rcases Run.error_of_bind h with hstate | ⟨state, Q, hstate, h⟩
    · exact ⟨_, .refl, Run.bind_error _ hstate⟩
    obtain rfl : P = Q := congrArg Prod.snd hstate
    rcases Run.error_of_bind h with hnoise | ⟨noise, Q, hnoise, h⟩
    · exact ⟨_, .refl, (Run.bind_ok _ hstate).trans (Run.bind_error _ hnoise)⟩
    obtain rfl : P = Q := congrArg Prod.snd hnoise
    have hread : Advances lp (⟨states, noises, .ahead (t + 1)⟩, P)
        (⟨states, noises, .refining t state noise (P.reachableStates (t + 1))
        (P.reachableStates t) []⟩, P) :=
      (Run.bind_ok _ hstate).trans (Run.bind_ok _ hnoise)
    have hsolved {found : List (Outcomes α)} {S : Multistage α}
        (hfound : ((P.reachableStates (t + 1)).mapM
        fun k => Multistage.outcomes lp (t + 1) k state noise).on P =
          (.ok found, S)) : Relation.ReflTransGen (Advances lp)
          (⟨states, noises, .ahead (t + 1)⟩, P)
        (⟨states, noises, .refining t state noise [] (P.reachableStates t) found⟩, S) :=
        .head hread (solve_all hfound)
    rcases Run.error_of_bind h with hstage | ⟨_, R, hstage, h⟩
    · rw [Multistage.refineStage, Run.bind_ok _ (Run.get_on P)] at hstage
      rcases Run.error_of_bind hstage with hfound | ⟨found, S, hfound, hstage⟩
      · exact (solve_some hfound).after (.single hread)
      · rw [Nat.add_sub_cancel] at hstage
        exact (refine_some hstage).after (hsolved hfound)
    · rw [Multistage.refineStage, Run.bind_ok _ (Run.get_on P)] at hstage
      obtain ⟨found, S, hfound, hstage⟩ := Run.exists_of_bind hstage
      rw [Nat.add_sub_cancel] at hstage
      exact (ih h).after ((hsolved hfound).trans (refine_all hstage))

end Worker

/-! ### What workers keep -/

section

variable [Field α] [LinearOrder α] [Numeral α] {p : Multistage α} {lp : Solver α}
  {F : Multistage.Prospect α}

/-- Whether what a worker has found supports the outcomes of the models that it has solved. -/
def Worker.Sound (p : Multistage α) (F : Multistage.Prospect α) (w : Worker α) : Prop :=
  match w.phase with
  | .ahead n => n < p.horizon
  | .refining t state noise models targets found =>
    t + 1 < p.horizon ∧ (∀ j ∈ targets, j ∈ p.reachableStates t) ∧ ∃ solved,
      p.reachableStates (t + 1) = solved ++ models ∧
      List.Forall₂ (p.GatheredAt F (t + 1) state noise) solved found

variable [IsStrictOrderedRing α]

theorem Worker.step_triple (hp : p.Checked) (hs : p.Stochastic) (hF : p.Realistic F)
    (hlp : lp.Exact) {w : Worker α} (hw : w.Sound p F) :
    Triple (p.Trained F) (w.step lp) (fun w P => p.Trained F P ∧ w.Sound p F) (p.Trained F) := by
  obtain ⟨states, noises, phase⟩ := w
  cases phase with
  | ahead n =>
    cases n with
    | zero => exact Triple.pure fun _ hP => ⟨hP, hw⟩
    | succ t =>
      refine Triple.bind (Keeps.ofExcept (I := p.Trained F)) fun state => ?_
      refine Triple.bind (Keeps.ofExcept (I := p.Trained F)) fun noise => ?_
      refine Triple.get_bind fun P hP =>
        Triple.pure fun _ hP' => ⟨hP' ▸ hP, hw, fun j hj => ?_, [], ?_, .nil⟩
      · rwa [hP.reachableStates_eq] at hj
      · rw [hP.reachableStates_eq, List.nil_append]
  | refining t state noise models targets found =>
    obtain ⟨ht, htargets, solved, hsplit, hfound⟩ := hw
    cases models with
    | cons k models =>
      have hk : k ∈ p.reachableStates (t + 1) := by simp [hsplit]
      refine Triple.bind (Multistage.outcomes_triple hp.wellFormed hlp state noise) fun o => ?_
      refine Triple.pure fun P hP => ⟨hP.1, ht, htargets, solved ++ [k], ?_, ?_⟩
      · rw [hsplit, List.append_assoc]
        rfl
      · exact List.rel_append hfound (.cons (hP.2 ht hk) .nil)
    | nil =>
      rw [List.append_nil] at hsplit
      subst hsplit
      cases targets with
      | cons j targets =>
        have hj : j ∈ p.reachableStates t := htargets j (by simp)
        refine Triple.bind (Multistage.refineAt_keeps hp hs hF ht hj
          (Multistage.gathered_of_found hfound)) fun _ => ?_
        exact Triple.pure fun P hP =>
          ⟨hP, ht, fun i hi => htargets i (by simp [hi]), _, by simp, hfound⟩
      | nil => exact Triple.pure fun P hP => ⟨hP, show t < p.horizon by omega⟩

end

end Recourse
