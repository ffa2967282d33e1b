import Recourse.Exchange.CutFiles
import Recourse.Proofs.Comparison.Idle

/-! Cuts that are exchanged by files. There is a table for each model with a cost-to-go function,
and none for a state that cannot be reached; so what is written and read is the same for problems
beside each other. -/

namespace Recourse

open Run (Coupled Keeps Triple)

variable {α β : Type}

theorem Run.Coupled.forM_rel {σ τ ι κ : Type} {R : σ → τ → Prop} {S : ι → κ → Prop}
    {f : ι → Run α σ Unit} {f' : κ → Run α τ Unit} {xs : List ι} {ys : List κ}
    (hxs : List.Forall₂ S xs ys)
    (h : ∀ i j, S i j → Coupled R (f i) (f' j) Eq) : Coupled R (xs.forM f) (ys.forM f') Eq := by
  induction hxs with
  | nil => exact .pure rfl
  | cons hij _ ih => exact (h _ _ hij).bind_same fun _ => ih

namespace Multistage

def Spare (p : Multistage α) : Prop := ∀ t k m,
    k ∉ p.reachableStates t → p.stageAt t k = some m → m.costToGo = none

end Multistage

variable {p p' P P' : Multistage α} {t k : ℕ} {m m' : Stage α}

theorem Multistage.Parallel.costToGo_eq_none (h : Parallel p p' P P') (hp : p.Spare)
    (hp' : p'.Spare) (hk : k ∉ p.reachableStates t) (hm : P.stageAt t k = some m)
    (hm' : P'.stageAt t k = some m') :
    m.costToGo = none ∧ m'.costToGo = none := by
  have hk' : k ∉ p'.reachableStates t := by
    rwa [← h.right.reachableStates_eq, h.beside.reachableStates_eq, ← h.reachable_iff]
  exact ⟨hp t k m hk ((h.left.models t k hk).symm.trans hm),
    hp' t k m' hk' ((h.right.models t k hk').symm.trans hm')⟩

namespace CutFiles

open Multistage (Beside Parallel Spare)

structure SamePlace (P P' : Multistage α) (x y : ℕ × ℕ × Stage α) : Prop where
  place : y.1 = x.1 ∧ y.2.1 = x.2.1
  left : P.stageAt x.1 x.2.1 = some x.2.2
  right : P'.stageAt x.1 x.2.1 = some y.2.2

theorem places_rel (h : P.Beside P') : List.Forall₂ (SamePlace P P') (places P) (places P') := by
  have hhorizon : P'.horizon = P.horizon := h.same Multistage.horizon fun _ _ => rfl
  have hlength : P'.models.length = P.models.length := by
    rw [← List.length_map (f := List.length), h.lengths, List.length_map]
  have hrows : List.Forall₂ (fun x y : List (Stage α) × ℕ =>
      y.2 = x.2 ∧ y.1.length = x.1.length ∧ P.models[x.2]? = some x.1 ∧ P'.models[x.2]? = some y.1)
      (P.models.take (P.horizon - 1)).zipIdx (P'.models.take (P'.horizon - 1)).zipIdx := by
    refine List.forall₂_iff_get.mpr ⟨by simp [hhorizon, hlength], fun t ht ht' => ?_⟩
    rw [List.length_zipIdx, List.length_take, lt_min_iff] at ht ht'
    have hsame := h.length_eq t
    simpa [List.getElem?_eq_getElem ht.2, List.getElem?_eq_getElem ht'.2] using hsame
  refine List.rel_flatMap hrows ?_
  rintro ⟨ms, t⟩ ⟨ms', _⟩ ⟨rfl, hlengths, hms, hms'⟩
  refine List.forall₂_iff_get.mpr ⟨by simp [hlengths], fun k hk hk' => ?_⟩
  simp only [List.length_map, List.length_zipIdx] at hk hk'
  simp only [List.get_eq_getElem, List.getElem_map, List.getElem_zipIdx, Nat.zero_add]
  exact ⟨⟨rfl, rfl⟩, Multistage.stageAt_eq_some.mpr ⟨ms, hms, List.getElem?_eq_getElem hk⟩,
    Multistage.stageAt_eq_some.mpr ⟨ms', hms', List.getElem?_eq_getElem hk'⟩⟩

/-- Desks with the same files, and with problems that have become of two problems beside each
other. -/
structure Desks (p p' : Multistage α) (x y : Desk α) : Prop where
  problem : Parallel p p' x.problem y.problem
  folder : y.folder = x.folder

theorem onProblem_desks {act act' : Run α (Multistage α) β}
    (h : Coupled (Parallel p p') act act' Eq) :
    Coupled (Desks p p') (onProblem act) (onProblem act') Eq :=
  h.zoom (fun _ _ hxy => hxy.problem) fun _ _ _ _ hxy hP => ⟨hP, hxy.folder⟩

theorem writeFile_desks (path text : String) :
    Coupled (Desks p p') (writeFile path text : Run α (Desk α) Unit) (writeFile path text) Eq := by
  unfold writeFile
  cases Text.fileName? path with
  | none => exact .throw
  | some name =>
    exact Coupled.modify fun x y hxy =>
      ⟨hxy.problem, congrArg (fun folder : Folder => folder.write name text) hxy.folder⟩

variable [Scalar α] [Numeral α]

/-- Writing cuts prepares the problem, and does no more to it. -/
theorem writeCuts_problem (start : String) (name author description : Datum α) (x : Desk α) :
    ((writeCuts start name author description).on x).2.problem =
    (Multistage.prepare.on x.problem).2 := by
  have hfile (path text : String) (P : Multistage α) :
      Keeps (fun y : Desk α => y.problem = P) (writeFile path text : Run α (Desk α) Unit) := by
    unfold writeFile
    cases Text.fileName? path with
    | none => exact .throw
    | some name => exact Triple.modify fun y hy => hy
  have htable (t k : ℕ) (m : Stage α) (P : Multistage α) :
      Keeps (fun y : Desk α => y.problem = P) (writeTable start t k m) := by
    unfold writeTable
    cases m.costToGo with
    | none => exact .pure
    | some ctg => exact Keeps.bind .ofExcept fun text => hfile _ _ P
  have hprepare : Triple (· = x) (onProblem Multistage.prepare : Run α (Desk α) Unit)
      (fun _ y => y.problem = (Multistage.prepare.on x.problem).2) fun y =>
      y.problem = (Multistage.prepare.on x.problem).2 := by
    rintro x rfl
    refine ⟨fun _ y hrun => ?_, fun e y hrun => ?_⟩ <;>
      exact congrArg (fun r => r.2.problem) hrun.symm
  have hwrite : Triple (· = x) (writeCuts start name author description)
      (fun _ y => y.problem = (Multistage.prepare.on x.problem).2) fun y =>
      y.problem = (Multistage.prepare.on x.problem).2 :=
    Triple.bind hprepare fun _ => Keeps.bind (hfile _ _ _)
      fun _ => .get_bind fun y => Triple.forM fun place _ => htable _ _ _ _
  rcases hrun : (writeCuts start name author description).on x with ⟨e | _, y⟩
  · exact (hwrite x rfl).2 e y hrun
  · exact (hwrite x rfl).1 () y hrun

theorem writeTable_desks (hp : p.Spare) (hp' : p'.Spare) (hP : Parallel p p' P P')
    {x y : ℕ × ℕ × Stage α} (hxy : SamePlace P P' x y) (start : String) :
    Coupled (Desks p p') (writeTable start x.1 x.2.1 x.2.2)
      (writeTable start y.1 y.2.1 y.2.2) Eq := by
  obtain ⟨_, _, m⟩ := x
  obtain ⟨t, k, m'⟩ := y
  obtain ⟨⟨rfl, rfl⟩, hm, hm'⟩ := hxy
  dsimp only at hm hm' ⊢
  unfold writeTable
  by_cases hk : k ∈ p.reachableStates t
  · have hsame := hP.beside.reached t k (hP.reachable_iff.mp hk)
    obtain rfl := Option.some.inj (hm.symm.trans (hsame.symm.trans hm'))
    cases m.costToGo with
    | none => exact .pure rfl
    | some ctg => exact (Coupled.ofExcept_eq rfl).bind_same fun text => writeFile_desks _ text
  · obtain ⟨hnone, hnone'⟩ := hP.costToGo_eq_none hp hp' hk hm hm'
    rw [hnone, hnone']
    exact .pure rfl

theorem writeCuts_desks (hp : p.Spare) (hp' : p'.Spare) (hstart : 0 ∈ p.reachableStates 0)
    (start : String)
    (name author description : Datum α) :
    Coupled (Desks p p') (writeCuts start name author description)
      (writeCuts start name author description) Eq := by
  refine (onProblem_desks (Multistage.prepare_parallel hstart)).bind_same fun _ =>
    (writeFile_desks _ _).bind_same fun _ => ?_
  refine Coupled.get_bind fun x y hxy => ?_
  exact Coupled.forM_rel (places_rel hxy.problem.beside) fun _ _ hplace =>
    writeTable_desks hp hp' hxy.problem hplace start

theorem readTable_desks (hp : p.Spare) (hp' : p'.Spare) (hP : Parallel p p' P P')
    {x y : ℕ × ℕ × Stage α} (hxy : SamePlace P P' x y) (start : String) :
    Coupled (Desks p p') (readTable start x.1 x.2.1) (readTable start y.1 y.2.1) Eq := by
  obtain ⟨_, _, m⟩ := x
  obtain ⟨t, k, m'⟩ := y
  obtain ⟨⟨rfl, rfl⟩, hm, hm'⟩ := hxy
  dsimp only at hm hm' ⊢
  refine Coupled.get_bind fun x y hxy => ?_
  by_cases hk : k ∈ p.reachableStates t
  · rw [hxy.problem.beside.model_eq (hxy.problem.reachable_iff.mp hk), hxy.folder]
    refine (Coupled.ofExcept_eq rfl).bind_same fun m =>
      .ite (.pure rfl) ((Coupled.ofExcept_eq rfl).bind_same fun table => ?_)
    refine (Coupled.ofExcept_eq rfl).bind_same fun rows => Coupled.forM fun row _ => ?_
    refine (Coupled.ofExcept_eq rfl).bind_same fun cut => ?_
    exact (onProblem_desks (Multistage.onModel_parallel hk _)).bind_same fun _ => .pure rfl
  · -- nothing has happened at this place since the places were listed
    have hleft : x.problem.stageAt t k = some m := by
      rw [hxy.problem.left.models t k hk, ← hP.left.models t k hk, hm]
    have hk' : k ∉ p'.reachableStates t := by
      rwa [← hP.right.reachableStates_eq, hP.beside.reachableStates_eq, ← hP.reachable_iff]
    have hright : y.problem.stageAt t k = some m' := by
      rw [hxy.problem.right.models t k hk', ← hP.right.models t k hk', hm']
    obtain ⟨hnone, hnone'⟩ := hP.costToGo_eq_none hp hp' hk hm hm'
    rw [Multistage.model_eq, Multistage.model_eq, hleft, hright]
    refine Coupled.bind (A := fun a b => a.costToGo = none ∧ b.costToGo = none)
      (.ofExcept (.ok ⟨hnone, hnone'⟩)) ?_
    rintro a b ⟨ha, hb⟩
    rw [ha, hb]
    exact .pure rfl

theorem readCuts_desks (hp : p.Spare) (hp' : p'.Spare) (hstart : 0 ∈ p.reachableStates 0)
    (start : String) :
    Coupled (Desks p p') (readCuts start) (readCuts start) Eq := by
  refine (onProblem_desks (Multistage.prepare_parallel hstart)).bind_same fun _ =>
    Coupled.get_bind fun x y hxy => ?_
  rw [hxy.folder]
  refine (Coupled.ofExcept_eq rfl).bind_same fun info => ?_
  refine (onProblem_desks (Coupled.modify fun P P' hP => ?_)).bind_same fun _ =>
    Coupled.get_bind fun x y hxy => ?_
  · exact hP.change (fun P => { P with provenance := some info }) (fun _ => rfl) (fun _ => rfl)
      (fun _ => rfl) fun _ _ => rfl
  · refine Coupled.bind_same (Coupled.forM_rel (places_rel hxy.problem.beside) fun _ _ hplace => ?_)
      fun _ => .pure rfl
    exact readTable_desks hp hp' hxy.problem hplace start

end CutFiles

end Recourse
