import Recourse.Multistage.Risk
import Recourse.Proofs.Multistage.Creation
import Recourse.Proofs.Stage.Fitting

/-! Problems as they are written: a chain, measures, calls on the models, and attempts to prepare
the problem, each of which may fail. An attempt that fails either leaves all models as they were
written, or it leaves behind a model that cannot be linked, and then no later attempt succeeds. So a
problem that is prepared in the end was not touched by the attempts before. -/

namespace Recourse.Multistage

open Run (Keeps Triple)

variable {α β : Type}

inductive WriteStep (α : Type) where
  | chain (matrices : Datum α)
  | measure (choice : Preference α) (stages : Datum α)
  | tail (weight level : Datum α)
  | model (t k : ℤ) (step : Stage.BuildStep α)
  | prepare

section

variable [Scalar α] [Numeral α]

def WriteStep.run : WriteStep α → Run α (Multistage α) Unit
  | .chain matrices => setChain matrices
  | .measure choice stages => setMeasure choice stages
  | .tail weight level => setTail weight level
  | .model t k step => onModelAt t k step.run
  | .prepare => Multistage.prepare

def WriteStep.after (step : WriteStep α) (P : Multistage α) : Multistage α := (step.run.on P).2

def write (steps : List (WriteStep α)) (P : Multistage α) : Multistage α :=
  steps.foldl (fun P step => step.after P) P

end

/-! ### One model followed -/

variable {p P : Multistage α} {t k : ℕ} {φ ψ χ : Stage α → Prop}

/-- An unprepared problem that is `p` but for what preparing it changes, and with a property of one
of its models. -/
structure At (p : Multistage α) (t k : ℕ) (φ : Stage α → Prop) (P : Multistage α) : Prop where
  draft : P.draft = p.draft
  unprepared : P.prepared = false
  model : ∃ m, P.stageAt t k = some m ∧ φ m

theorem At.mono (h : p.At t k φ P) (hφ : ∀ m, φ m → ψ m) : p.At t k ψ P := by
  obtain ⟨m, hm, hφm⟩ := h.model
  exact ⟨h.draft, h.unprepared, m, hm, hφ m hφm⟩

theorem onModel_at {act : Stage.Edit α Unit} (h : Triple φ act (fun _ => ψ) χ)
    (hdraft : ∀ d : Stage α, Keeps (fun m => m.draft = d) act) :
    Triple (p.At t k φ) (onModel t k act) (fun _ => p.At t k ψ) (p.At t k χ) := by
  refine onModel_triple (fun P m hP hm => ?_) fun P hP hnone => ?_
  · obtain ⟨m', hm', hφ⟩ := hP.model
    obtain rfl := Option.some.inj (hm.symm.trans hm')
    refine (Triple.and h (hdraft m.draft)).conseq (fun s hs => ?_) (fun _ s hs => ?_) fun s hs => ?_
    · rw [hs]
      exact ⟨hφ, rfl⟩
    · exact ⟨(draft_put hm hs.2).trans hP.draft, hP.unprepared, s, stageAt_put_self hm s, hs.1⟩
    · exact ⟨(draft_put hm hs.2).trans hP.draft, hP.unprepared, s, stageAt_put_self hm s, hs.1⟩
  · obtain ⟨m, hm, -⟩ := hP.model
    cases hnone.symm.trans hm

theorem onModel_at_of_ne {t' k' : ℕ} (hne : t = t' → k ≠ k') {act : Stage.Edit α Unit}
    (hdraft : ∀ d : Stage α, Keeps (fun m => m.draft = d) act) :
    Keeps (p.At t k φ) (onModel t' k' act) := by
  refine Keeps.iff_on.mpr fun P hP => ?_
  rcases hm : P.stageAt t' k' with _ | m
  · rwa [onModel_on_none hm]
  · rw [onModel_on_some hm]
    refine ⟨(draft_put hm (Keeps.iff_on.mp (hdraft m.draft) m rfl)).trans hP.draft,
      hP.unprepared, ?_⟩
    rw [stageAt_put_of_ne hne]
    exact hP.model

theorem onReachable_at (hk : k ∈ p.reachableStates t) {act : Stage.Edit α Unit}
    (h : Triple φ act (fun _ => ψ) χ) (hagain : Triple ψ act (fun _ => ψ) χ) (hφ : ∀ m, φ m → χ m)
    (hψ : ∀ m, ψ m → χ m)
    (hdraft : ∀ d : Stage α, Keeps (fun m => m.draft = d) act) :
    Triple (p.At t k φ) (onReachable t act) (fun _ => p.At t k ψ) (p.At t k χ) := by
  have hother {φ : Stage α → Prop} (hφ : ∀ m, φ m → χ m) {k' : ℕ} (hne : k' ≠ k) :
      Triple (p.At t k φ) (onModel t k' act) (fun _ => p.At t k φ) (p.At t k χ) :=
    (onModel_at_of_ne (fun _ => Ne.symm hne) hdraft).conseq (fun _ hP => hP) (fun _ _ hP => hP)
      fun _ hP => hP.mono hφ
  refine Triple.get_bind fun P hP => ?_
  rw [reachableStates_of_draft hP.draft]
  refine Triple.conseq (P := p.At t k φ) ?_ (fun s hs => hs ▸ hP) (fun _ _ hP => hP) fun _ hP => hP
  refine Triple.forM_mem hk (fun k' hne => hother hφ hne) (onModel_at h hdraft) fun k' => ?_
  by_cases hsame : k' = k
  · subst hsame
    exact onModel_at hagain hdraft
  · exact hother hψ hsame

theorem onReachable_at_of_ne {t' : ℕ} (hne : t' ≠ t) {act : Stage.Edit α Unit}
    (hdraft : ∀ d : Stage α, Keeps (fun m => m.draft = d) act) :
    Keeps (p.At t k φ) (onReachable t' act) :=
  .get_bind fun _ => Triple.forM fun _ _ => onModel_at_of_ne (fun h => absurd h.symm hne) hdraft

theorem isLagged_of_draft (h : P.draft = p.draft) (t : ℕ) : P.isLagged t = p.isLagged t := by
  have himp {P p : Multistage α} (h : P.draft = p.draft) (hlagged : P.isLagged t = true) :
      p.isLagged t = true := by
    obtain ⟨k, hk, m, hm, hne⟩ := isLagged_iff.mp hlagged
    obtain ⟨m', hm', hdraft⟩ := exists_draft h hm
    have hcopies : m'.noiseCopies = m.noiseCopies := (congrArg Stage.noiseCopies hdraft :)
    exact isLagged_iff.mpr ⟨k, reachableStates_of_draft h t ▸ hk, m', hm', hcopies ▸ hne⟩
  rw [Bool.eq_iff_iff]
  exact ⟨himp h, himp h.symm⟩

/-! ### Preparing what is as it was written -/

section

variable [Scalar α] [Numeral α] {P₀ : Multistage α}

theorem setUpCostToGo_at {A B E : Stage α → Prop} (hk : k ∈ p.reachableStates t)
    (hA : ∀ m, A m → E m) (hB : ∀ m, B m → E m)
    (h : ∀ terms, Triple A
      (do Stage.setUpCostToGo terms; Stage.setUpPool p.sense p.pruning (p.isLagged (t + 1)))
      (fun _ => B) E)
    (hagain : ∀ terms, Triple B
      (do Stage.setUpCostToGo terms; Stage.setUpPool p.sense p.pruning (p.isLagged (t + 1)))
      (fun _ => B) E) :
    Triple (p.At t k A) (setUpCostToGo t) (fun _ => p.At t k B) (p.At t k E) := by
  refine Triple.get_bind fun P hP => ?_
  have hsense : P.sense = p.sense ∧ P.pruning = p.pruning :=
    ⟨(congrArg sense hP.draft :), (congrArg pruning hP.draft :)⟩
  rw [isLagged_of_draft hP.draft, hsense.1, hsense.2]
  refine Triple.conseq (P := p.At t k A) ?_ (fun s hs => hs ▸ hP) (fun _ _ hP => hP) fun _ h => h
  exact onReachable_at hk (h _) (hagain _) hA hB fun d => equip_draft _ _ _ _ d

theorem setUpCostToGo_at_of_ne {D E : Stage α → Prop} (hD : ∀ m, D m → E m) {t' : ℕ}
    (hne : t' ≠ t) :
    Triple (p.At t k D) (setUpCostToGo t') (fun _ => p.At t k D) (p.At t k E) :=
  Triple.get_bind_any fun _ =>
    (onReachable_at_of_ne hne fun d => equip_draft _ _ _ _ d).conseq (fun _ hP => hP)
      (fun _ _ hP => hP) fun _ hP => hP.mono hD

theorem setUpLinks_at_of_ne {D E : Stage α → Prop} (hD : ∀ m, D m → E m) {t' : ℕ}
    (hne : t' ≠ t) : Triple (p.At t k D) (setUpLinks t') (fun _ => p.At t k D) (p.At t k E) :=
  (onReachable_at_of_ne hne fun d => setUpLinks_draft _ d).conseq (fun _ hP => hP)
    (fun _ _ hP => hP) fun _ hP => hP.mono hD

omit [Scalar α] [Numeral α] in
/-- A task for every stage, of which the one for the stage of the model does its work there and
finds nothing left to do the second time. -/
theorem forM_at {A B E : Stage α → Prop} {act : ℕ → Run α (Multistage α) Unit} {stages : List ℕ}
    (ht : t ∈ stages) (hA : ∀ m, A m → E m) (hB : ∀ m, B m → E m)
    (hother : ∀ {D : Stage α → Prop}, (∀ m, D m → E m) → ∀ {t' : ℕ}, t' ≠ t →
      Triple (p.At t k D) (act t') (fun _ => p.At t k D) (p.At t k E))
    (h : Triple (p.At t k A) (act t) (fun _ => p.At t k B) (p.At t k E))
    (hagain : Triple (p.At t k B) (act t) (fun _ => p.At t k B) (p.At t k E)) :
    Triple (p.At t k A) (stages.forM act) (fun _ => p.At t k B) (p.At t k E) := by
  refine Triple.forM_mem ht (fun t' hne => hother hA hne) h fun t' => ?_
  by_cases hsame : t' = t
  · subst hsame
    exact hagain
  · exact hother hB hsame

/-- What preparing a problem does to one of its models, given what each half of the work does to
it. -/
theorem prepare_at {A B C E : Stage α → Prop} (hk : k ∈ p.reachableStates t) (ht : t < p.horizon)
    (hA : ∀ m, A m → E m) (hB : ∀ m, B m → E m) (hC : ∀ m, C m → E m)
    (hcosts : t + 1 < p.horizon → ∀ terms, Triple A
      (do Stage.setUpCostToGo terms; Stage.setUpPool p.sense p.pruning (p.isLagged (t + 1)))
      (fun _ => B) E)
    (hcosts' : t + 1 < p.horizon → ∀ terms, Triple B
      (do Stage.setUpCostToGo terms; Stage.setUpPool p.sense p.pruning (p.isLagged (t + 1)))
      (fun _ => B) E)
    (hlast : t + 1 = p.horizon → ∀ m, A m → B m)
    (hlinks : Triple B (Stage.setUpLinks (t = 0)) (fun _ => C) E)
    (hlinks' : Triple C (Stage.setUpLinks (t = 0)) (fun _ => C) E) :
    Triple (p.At t k A) prepare (fun _ P => ∃ m, P.stageAt t k = some m ∧ C m) (p.At t k E) := by
  refine Triple.get_bind fun P hP => ?_
  rw [if_neg (by simp [hP.unprepared]), horizon_of_draft hP.draft]
  refine Triple.bind (Q := fun _ => p.At t k A)
    (Triple.ofExcept (fun s _ hs _ => hs ▸ hP) fun s hs => (hs ▸ hP).mono hA)
    fun _ => ?_
  refine Triple.bind (Q := fun _ => p.At t k B) ?_ fun _ => ?_
  · by_cases hbefore : t + 1 < p.horizon
    · exact forM_at (List.mem_range.mpr (Nat.lt_sub_of_add_lt hbefore)) hA hB
        (fun hD => setUpCostToGo_at_of_ne hD)
        (setUpCostToGo_at hk hA hB (hcosts hbefore) (hcosts' hbefore))
        (setUpCostToGo_at hk hB hB (hcosts' hbefore) (hcosts' hbefore))
    · have hAB : ∀ m, A m → B m := hlast (by omega)
      refine (Triple.forM (I := p.At t k B) fun t' ht' =>
        setUpCostToGo_at_of_ne hB ?_).conseq (fun _ hP => hP.mono hAB) (fun _ _ hP => hP)
          fun _ hP => hP
      have := List.mem_range.mp ht'
      omega
  refine Triple.bind (Q := fun _ => p.At t k C) ?_ fun _ => Triple.modify fun P hP => hP.model
  exact forM_at (List.mem_range.mpr ht) hB hC (fun hD => setUpLinks_at_of_ne hD)
    (onReachable_at hk hlinks hlinks' hB hC fun d => setUpLinks_draft _ d)
    (onReachable_at hk hlinks' hlinks' hC hC fun d => setUpLinks_draft _ d)

end

section

variable [Field α] [LinearOrder α] [Numeral α] {P₀ : Multistage α} {m : Stage α}

/-- What preparation makes of a reachable model, given what the two halves of the work do. The
parameters of the property tell which of them were done; the first one is for stages before the
last. -/
theorem joined_of_prepare {J : Bool → Bool → Stage α → Prop}
    (hequip : ∀ equipped linked terms, Triple (J equipped linked)
      (do Stage.setUpCostToGo terms; Stage.setUpPool p.sense p.pruning (p.isLagged (t + 1)))
      (fun _ => J true linked)
      fun _ => True)
    (hlink : ∀ equipped linked, Triple (J equipped linked) (Stage.setUpLinks (t = 0))
      (fun _ => J equipped true) fun _ => True)
    (hp : p.prepared = false) (h : prepare.on p = (.ok (), P₀)) (hk : k ∈ p.reachableStates t)
    (ht : t < p.horizon) (hm : p.stageAt t k = some m) (hstart : J false false m) :
    ∃ M, P₀.stageAt t k = some M ∧ J (t + 1 < p.horizon) true M := by
  have hequip' (equipped : Bool) (hbefore : t + 1 < p.horizon)
      (terms : Except (Fault α) (α × Limit α)) :
      Triple (J equipped false) (do
        Stage.setUpCostToGo terms
        Stage.setUpPool p.sense p.pruning (p.isLagged (t + 1)))
        (fun _ => J (t + 1 < p.horizon) false) fun _ => True := by
    rw [decide_eq_true hbefore]
    exact hequip equipped false terms
  have hlast (hend : t + 1 = p.horizon) (m : Stage α) (hJ : J false false m) :
      J (t + 1 < p.horizon) false m := by
    rwa [decide_eq_false (by omega)]
  exact (prepare_at (E := fun _ => True) hk ht (fun _ _ => trivial) (fun _ _ => trivial)
    (fun _ _ => trivial)
    (hequip' _) (hequip' _) hlast (hlink _ _) (hlink _ _) p ⟨rfl, hp, m, hm, hstart⟩).1 () P₀ h

theorem fitted_of_prepare (hp : p.prepared = false) (h : prepare.on p = (.ok (), P₀))
    (hk : k ∈ p.reachableStates t) (ht : t < p.horizon) (hm : p.stageAt t k = some m)
    (halone : m.Alone) :
    ∃ M, P₀.stageAt t k = some M ∧ M.Fitted (t = 0) (p.isLagged (t + 1)) (t + 1 < p.horizon) true :=
  joined_of_prepare (J := Stage.Fitted (t = 0) (p.isLagged (t + 1)))
    (fun _ _ terms => Stage.equip_fitted terms _ _)
    (fun _ _ => Stage.setUpLinks_fitted) hp h hk ht hm halone.fitted

/-- While a reachable model is stuck, a problem is not prepared. -/
theorem prepare_of_stuck (hk : k ∈ p.reachableStates t) (ht : t < p.horizon) :
    Triple (p.At t k (Stage.Stuck (t = 0))) prepare (fun _ _ => False)
      (p.At t k (Stage.Stuck (t = 0))) := by
  refine (prepare_at (A := Stage.Stuck (t = 0)) (B := Stage.Stuck (t = 0))
    (C := fun _ => False) hk ht (fun _ hm => hm)
    (fun _ hm => hm) (fun _ hm => hm.elim) (fun _ terms => Stage.equip_of_stuck _ _ _ _)
    (fun _ terms => Stage.equip_of_stuck _ _ _ _) (fun _ _ hm => hm) Stage.setUpLinks_of_stuck
    fun _ hm => hm.elim).conseq
    (fun _ hP => hP) (fun _ P hP => ?_) fun _ hP => hP
  obtain ⟨_, -, hfalse⟩ := hP
  exact hfalse

end

/-! ### Attempts that fail -/

structure Throughout (p : Multistage α) (φ : Stage α → Prop) (P : Multistage α) : Prop where
  draft : P.draft = p.draft
  unprepared : P.prepared = false
  models : ∀ t k m, P.stageAt t k = some m → φ m

theorem Throughout.put {m : Stage α} (h : p.Throughout φ P) (hm : P.stageAt t k = some m)
    {m' : Stage α} (hm' : φ m') (hdraft : m'.draft = m.draft) : p.Throughout φ (P.put t k m') where
  draft := (draft_put hm hdraft).trans h.draft
  unprepared := h.unprepared
  models := by
    intro t' k' M hM
    rcases stageAt_put_cases hm hM with ⟨rfl, rfl, rfl⟩ | hM
    · exact hm'
    · exact h.models t' k' M hM

theorem onModel_throughout (hexists : ∃ m, p.stageAt t k = some m) {act : Stage.Edit α Unit}
    (h : Triple φ act (fun _ => φ) χ) (hdraft : ∀ d : Stage α, Keeps (fun m => m.draft = d) act) :
    Triple (p.Throughout φ) (onModel t k act) (fun _ => p.Throughout φ) (p.At t k χ) := by
  refine onModel_triple (fun P m hP hm => ?_) fun P hP hnone => ?_
  · refine (Triple.and h (hdraft m.draft)).conseq (fun s hs => ?_)
      (fun _ s hs => hP.put hm hs.1 hs.2) fun s hs => ?_
    · rw [hs]
      exact ⟨hP.models t k m hm, rfl⟩
    · exact ⟨(draft_put hm hs.2).trans hP.draft, hP.unprepared, s, stageAt_put_self hm s, hs.1⟩
  · obtain ⟨m, hm⟩ := hexists
    have hstage : (P.stageAt t k).map Stage.draft = (p.stageAt t k).map Stage.draft := by
      rw [← stageAt_draft, ← stageAt_draft, hP.draft]
    rw [hnone, hm] at hstage
    cases hstage

section

variable [Field α] [LinearOrder α] [IsStrictOrderedRing α] [Numeral α]

structure Loose (P : Multistage α) : Prop where
  unprepared : P.prepared = false
  models : ∀ t k m, P.stageAt t k = some m → m.Built

/-- An unprepared problem with a reachable model that cannot be linked. -/
structure Jammed (P : Multistage α) : Prop where
  unprepared : P.prepared = false
  stuck : ∃ t k m, k ∈ P.reachableStates t ∧ P.stageAt t k = some m ∧ m.Stuck (t = 0)

omit [IsStrictOrderedRing α] in
theorem jammed_of_at (hk : k ∈ p.reachableStates t) (h : p.At t k (Stage.Stuck (t = 0)) P) :
    P.Jammed := by
  obtain ⟨m, hm, hstuck⟩ := h.model
  exact ⟨h.unprepared, t, k, m, by rwa [reachableStates_of_draft h.draft], hm, hstuck⟩

theorem setUpLinks_throughout (hp : p.Charted) (t : ℕ) :
    Triple (p.Throughout Stage.Follows) (setUpLinks t)
      (fun _ => p.Throughout Stage.Follows) Jammed := by
  refine Triple.get_bind fun P hP => ?_
  rw [reachableStates_of_draft hP.draft]
  refine (Triple.forM fun k hk => ?_).conseq (fun s hs => hs ▸ hP) (fun _ _ hP => hP) fun _ hP => hP
  refine (onModel_throughout (hp.exists_stageAt.mpr (hp.lt_counts hk).2) Stage.setUpLinks_stuck
    fun d => setUpLinks_draft _ d).conseq (fun _ hP => hP) (fun _ _ hP => hP)
    fun P hP => jammed_of_at hk hP

theorem setUpCostToGo_throughout (hp : p.Charted) {limit : Limit α}
    (hbound : p.bound = .ok limit) (t : ℕ) :
    Triple (p.Throughout Stage.Follows) (setUpCostToGo t) (fun _ => p.Throughout Stage.Follows)
      fun _ => False := by
  refine Triple.get_bind fun P hP => ?_
  have hbound' : P.bound = .ok limit := (congrArg bound hP.draft :).trans hbound
  refine Triple.conseq (P := p.Throughout Stage.Follows) ?_ (fun s hs => hs ▸ hP) (fun _ _ hP => hP)
    fun _ hP => hP
  refine Triple.get_bind fun P' hP' => ?_
  rw [reachableStates_of_draft hP'.draft, hbound']
  refine (Triple.forM fun k hk => ?_).conseq (fun s hs => hs ▸ hP') (fun _ _ hP => hP) fun _ hP =>
    hP
  refine (onModel_throughout (hp.exists_stageAt.mpr (hp.lt_counts hk).2) (Stage.equip_of_ok _ _ _ _)
    fun d => equip_draft _ _ _ _ d).conseq (fun _ hP => hP) (fun _ _ hP => hP) fun P hP => ?_
  obtain ⟨_, -, hfalse⟩ := hP.model
  exact hfalse

omit [IsStrictOrderedRing α] in
theorem setUpCostToGo_built {e : Fault α} (hbound : p.bound = .error e) (t : ℕ) :
    Keeps (p.Throughout Stage.Built) (setUpCostToGo t) := by
  refine Triple.get_bind fun P hP => ?_
  have hbound' : P.bound = .error e := (congrArg bound hP.draft :).trans hbound
  rw [hbound']
  refine Triple.conseq (P := p.Throughout Stage.Built) ?_ (fun s hs => hs ▸ hP) (fun _ _ hP => hP)
    fun _ hP => hP
  refine Triple.get_bind_any fun _ => Triple.forM fun k hk => Keeps.iff_on.mpr fun Q hQ => ?_
  rcases hm : Q.stageAt t k with _ | m
  · rwa [onModel_on_none hm]
  · rw [onModel_on_some hm]
    have hbuilt := Keeps.iff_on.mp
      ((Stage.equip_of_error e P.sense P.pruning (P.isLagged (t + 1))).conseq (fun _ hm => hm)
      (fun _ _ hm => hm.elim) fun _ hm => hm) m (hQ.models t k m hm)
    exact hQ.put hm hbuilt (Keeps.iff_on.mp (equip_draft _ _ _ _ m.draft) m rfl)

omit [Field α] [LinearOrder α] [IsStrictOrderedRing α] [Numeral α] in
theorem Throughout.loose (h : p.Throughout Stage.Built P) : P.Loose := ⟨h.unprepared, h.models⟩

/-- An attempt that fails leaves the models as they were written, or one of them is stuck. -/
theorem prepare_of_loose (hp : p.Charted) (hloose : p.Loose) :
    Triple (· = p) prepare (fun _ _ => True) fun P => P.Loose ∨ P.Jammed := by
  have hstart : p.Throughout Stage.Built p := ⟨rfl, hloose.unprepared, hloose.models⟩
  refine Triple.get_bind fun P hP => ?_
  subst hP
  rw [if_neg (by simp [hloose.unprepared])]
  refine Triple.conseq (P := P.Throughout Stage.Built) ?_ (fun s hs => hs ▸ hstart)
    (fun _ _ hP => hP) fun _ hP => hP
  refine Triple.bind (Q := fun _ => P.Throughout Stage.Built)
    (Triple.ofExcept (fun _ _ hs _ => hs) fun _ hs => .inl hs.loose) fun _ => ?_
  refine Triple.bind (Q := fun _ => P.Throughout Stage.Follows) ?_ fun _ => ?_
  · have hfollows (P' : Multistage α) (hP' : P.Throughout Stage.Built P') :
        P.Throughout Stage.Follows P' :=
      ⟨hP'.draft, hP'.unprepared, fun t k m hm => (hP'.models t k m hm).follows⟩
    rcases hbound : P.bound with e | limit
    · exact (Triple.forM fun t _ => setUpCostToGo_built hbound t).conseq (fun _ hs => hs)
        (fun _ s hs => hfollows s hs)
        fun _ hs => .inl hs.loose
    · exact (Triple.forM fun t _ => setUpCostToGo_throughout hp hbound t).conseq hfollows
        (fun _ _ hs => hs)
        fun _ hs => hs.elim
  · refine Triple.bind (Q := fun _ _ => True) ?_ fun _ => Triple.modify fun _ _ => trivial
    exact (Triple.forM fun t _ => setUpLinks_throughout hp t).conseq (fun _ hs => hs)
      (fun _ _ _ => trivial)
      fun _ hs => .inr hs

/-- Once a model is stuck, no attempt succeeds. -/
theorem prepare_of_jammed (hp : p.Charted) (hjammed : p.Jammed) :
    Triple (· = p) prepare (fun _ _ => False) Jammed := by
  obtain ⟨t, k, m, hk, hm, hstuck⟩ := hjammed.stuck
  refine (prepare_of_stuck hk (hp.lt_counts hk).1).conseq (fun P hP => ?_) (fun _ _ hP => hP)
    fun P hP => jammed_of_at hk hP
  rw [hP]
  exact ⟨rfl, hjammed.unprepared, m, hm, hstuck⟩

/-! ### Problems that are written -/

/-- A problem as writing leaves it. As long as it is not prepared, its models are as they were
written, or one of them is stuck. -/
structure Written (P : Multistage α) : Prop where
  charted : P.Charted
  asked : P.outline.horizon.int? = some ↑P.horizon
  unprepared : P.prepared = false → P.Loose ∨ P.Jammed

omit [IsStrictOrderedRing α] in
theorem of_newModels {o : Outline α} {counts : List ℕ} {models : List (List (Stage α))}
    (h : o.newModels counts = .ok models)
    (hempty : ∀ name stage markovState sense settings,
      φ { Stage.empty name stage markovState sense with settings })
    {ms : List (Stage α)} (hms : ms ∈ models) {m : Stage α} (hm : m ∈ ms) : φ m := by
  obtain ⟨settings, -, h⟩ := ok_of_bind h
  obtain rfl := Except.ok.inj h
  obtain ⟨⟨n, t⟩, -, rfl⟩ := List.mem_map.mp hms
  obtain ⟨k, -, rfl⟩ := List.mem_map.mp hm
  exact hempty _ _ _ _ _

omit [IsStrictOrderedRing α] in
theorem built_of_newModels {o : Outline α} {counts : List ℕ} {models : List (List (Stage α))}
    (h : o.newModels counts = .ok models) {ms : List (Stage α)} (hms : ms ∈ models) {m : Stage α}
    (hm : m ∈ ms) :
    m.Built :=
  of_newModels h Stage.built_empty hms hm

omit [IsStrictOrderedRing α] in
theorem loose_of_newModels {o : Outline α} {counts : List ℕ} {models : List (List (Stage α))}
    (h : o.newModels counts = .ok models) (hmodels : P.models = models)
    (hprepared : P.prepared = false) : P.Loose where
  unprepared := hprepared
  models := by
    intro t k m hm
    obtain ⟨ms, hms, hm⟩ := stageAt_eq_some.mp hm
    rw [hmodels] at hms
    exact built_of_newModels h (List.mem_of_getElem? hms) (List.mem_of_getElem? hm)

omit [IsStrictOrderedRing α] in
theorem newModels_of_create {o : Outline α} (h : create o = .ok p) :
    p.prepared = false ∧ ∃ counts, o.newModels counts = .ok p.models := by
  obtain ⟨good, -, h⟩ := ok_of_bind h
  cases good with
  | false => cases h
  | true =>
    rcases hn : o.horizon.int? with _ | n
    · simp only [hn] at h
      cases h
    · simp only [hn] at h
      obtain ⟨discount, -, h⟩ := ok_of_bind h
      obtain ⟨models, hmodels, h⟩ := ok_of_bind h
      obtain rfl := Except.ok.inj h
      exact ⟨rfl, _, hmodels⟩

omit [IsStrictOrderedRing α] in
theorem loose_of_create {o : Outline α} (h : create o = .ok p) : p.Loose := by
  obtain ⟨hprepared, _, hmodels⟩ := newModels_of_create h
  exact loose_of_newModels hmodels rfl hprepared

omit [IsStrictOrderedRing α] in
theorem written_of_create {o : Outline α} (h : create o = .ok p) : p.Written := by
  obtain ⟨hcharted, hasked⟩ := charted_of_create h
  exact ⟨hcharted, hasked, fun _ => .inl (loose_of_create h)⟩

omit [IsStrictOrderedRing α] in
theorem Written.withMeasures (h : P.Written) (measures : List (Preference α)) (riskAverse : Bool) :
    Written { P with measures, riskAverse } where
  charted := ⟨h.charted.chain, h.charted.horizon, h.charted.stages, h.charted.models⟩
  asked := h.asked
  unprepared := by
    intro hprepared
    rcases h.unprepared hprepared with hloose | hjammed
    · exact .inl ⟨hprepared, hloose.models⟩
    · exact .inr ⟨hprepared, hjammed.stuck⟩

omit [Field α] [LinearOrder α] [IsStrictOrderedRing α] [Numeral α] in
theorem setMeasure_keeps [Scalar α] {I : Multistage α → Prop}
    (hI : ∀ (P : Multistage α) measures riskAverse, I P → I { P with measures, riskAverse })
    (choice : Preference α) (stages : Datum α) : Keeps I (setMeasure choice stages) := by
  have hstage (stage : Datum α) : Keeps I (setStageMeasure choice stage) := by
    refine Triple.get_bind fun P hP => ?_
    rcases stage.number? with _ | x
    · exact Triple.throw fun s hs => hs ▸ hP
    dsimp only
    split_ifs
    · exact Triple.throw_bind fun s hs => hs ▸ hP
    rcases stage.int? with _ | t
    · exact Triple.throw fun s hs => hs ▸ hP
    · exact Triple.set fun s _ => hI P _ _ hP
  have hloop (stages : List (Datum α)) : Keeps I (do stages.forM (setStageMeasure choice); label) :=
    Keeps.bind (Triple.forM fun stage _ => hstage stage) fun _ =>
      Triple.modify fun P hP => hI P _ _ hP
  refine .get_bind fun P => ?_
  dsimp only
  split
  · exact hloop _
  · exact hloop _
  · exact Triple.throw_bind fun _ hP => hP

omit [Field α] [LinearOrder α] [IsStrictOrderedRing α] [Numeral α] in
theorem setTail_keeps [Scalar α] {I : Multistage α → Prop}
    (hI : ∀ (P : Multistage α) measures riskAverse, I P → I { P with measures, riskAverse })
    (weight level : Datum α) :
    Keeps I (setTail weight level) := by
  refine .get_bind fun P =>
    .bind .ofExcept fun weights => .bind .ofExcept fun levels => Triple.forM fun choice _ => ?_
  exact setMeasure_keeps hI _ _

omit [IsStrictOrderedRing α] in
theorem onModel_written (t k : ℕ) (step : Stage.BuildStep α) :
    Keeps Written (onModel t k step.run) := by
  refine Keeps.iff_on.mpr fun P hP => ?_
  rcases hm : P.stageAt t k with _ | m
  · rwa [onModel_on_none hm]
  rw [onModel_on_some hm]
  refine ⟨⟨hP.charted.chain, hP.charted.horizon, hP.charted.stages,
    (lengths_put hm _).trans hP.charted.models⟩, hP.asked, ?_⟩
  intro hprepared
  rcases hP.unprepared hprepared with hloose | hjammed
  · refine .inl ⟨hprepared, fun t' k' M hM => ?_⟩
    rcases stageAt_put_cases hm hM with ⟨rfl, rfl, rfl⟩ | hM
    · exact (hloose.models _ _ m hm).after step
    · exact hloose.models t' k' M hM
  · obtain ⟨t', k', M, hk', hM, hstuck⟩ := hjammed.stuck
    by_cases hsame : t' = t ∧ k' = k
    · obtain ⟨rfl, rfl⟩ := hsame
      obtain rfl := Option.some.inj (hm.symm.trans hM)
      exact .inr ⟨hprepared, t', k', step.after m, hk', stageAt_put_self hm _, hstuck.after step⟩
    · exact .inr ⟨hprepared, t', k', M, hk',
        (stageAt_put_of_ne (fun ht hk => hsame ⟨ht, hk⟩) _).trans hM, hstuck⟩

theorem Written.after (hP : P.Written) (step : WriteStep α) : (step.after P).Written := by
  cases step with
  | chain matrices =>
    rcases setChain_on matrices P with ⟨e, hrun⟩ | ⟨chain, models, -, hmodels, hrun⟩
    · rw [WriteStep.after, WriteStep.run, hrun]
      exact hP
    · have hcharted := hP.charted.setChain hP.asked hrun
      rw [WriteStep.after, WriteStep.run, hrun]
      exact ⟨hcharted, hP.asked, fun hprepared => .inl (loose_of_newModels hmodels rfl hprepared)⟩
  | measure choice stages =>
    exact Keeps.iff_on.mp
      (setMeasure_keeps (fun _ _ _ hP => hP.withMeasures _ _) choice stages) P hP
  | tail weight level =>
    exact Keeps.iff_on.mp
      (setTail_keeps (fun _ _ _ hP => hP.withMeasures _ _) weight level) P hP
  | model t k step =>
    have hat : Keeps Written (onModelAt t k step.run : Run α (Multistage α) Unit) :=
      .get_bind fun P => .bind .ofExcept fun place => onModel_written _ _ step
    exact Keeps.iff_on.mp hat P hP
  | prepare =>
    have hdraft := Keeps.iff_on.mp (prepare_draft P.draft) P rfl
    have hcharted := Charted.of_draft hdraft hP.charted
    have houtline : (prepare.on P).2.outline = P.outline := (congrArg outline hdraft :)
    refine ⟨hcharted, ?_, fun hprepared => ?_⟩
    · rw [WriteStep.after, WriteStep.run, houtline, horizon_of_draft hdraft]
      exact hP.asked
    · have hbefore : P.prepared = false := by
        by_contra hprepared'
        rw [WriteStep.after, WriteStep.run, prepare_on_prepared (by simpa using hprepared')]
          at hprepared
        exact hprepared' hprepared
      rcases hrun : prepare.on P with ⟨e | _, P'⟩
      · rw [WriteStep.after, WriteStep.run, hrun]
        rcases hP.unprepared hbefore with hloose | hjammed
        · exact (prepare_of_loose hP.charted hloose P rfl).2 e P' hrun
        · exact .inr ((prepare_of_jammed hP.charted hjammed P rfl).2 e P' hrun)
      · rw [WriteStep.after, WriteStep.run, hrun] at hprepared
        cases hprepared.symm.trans ((prepare_prepared P trivial).1 () P' hrun)

theorem Written.write (hP : P.Written) (steps : List (WriteStep α)) : (write steps P).Written := by
  induction steps generalizing P with
  | nil => exact hP
  | cons step steps ih => exact ih (hP.after step)

/-- What is prepared at last was left alone by the attempts before: its models are as they were
written. -/
theorem Written.loose (hp : p.Written) (hprepared : p.prepared = false) {P₀ : Multistage α}
    (h : prepare.on p = (.ok (), P₀)) : p.Loose := by
  rcases hp.unprepared hprepared with hloose | hjammed
  · exact hloose
  · exact ((prepare_of_jammed hp.charted hjammed p rfl).1 () P₀ h).elim

/-! ### Rows of problems that are written -/

omit [IsStrictOrderedRing α] in
theorem settled_of_newModels {o : Outline α} {counts : List ℕ} {models : List (List (Stage α))}
    (h : o.newModels counts = .ok models) (hmodels : P.models = models) : P.Settled := by
  refine settled_iff.mpr fun t k m hm => ?_
  obtain ⟨ms, hms, hm⟩ := stageAt_eq_some.mp hm
  rw [hmodels] at hms
  exact of_newModels h (Stage.placed_empty _) (List.mem_of_getElem? hms) (List.mem_of_getElem? hm)

omit [IsStrictOrderedRing α] in
theorem settled_of_create {o : Outline α} (h : create o = .ok p) : p.Settled := by
  obtain ⟨-, _, hmodels⟩ := newModels_of_create h
  exact settled_of_newModels hmodels rfl

omit [IsStrictOrderedRing α] in
/-- Writing hands out the identifiers of rows one after the other, and no cut arrives. -/
theorem Settled.after (hP : P.Settled) (step : WriteStep α) : (step.after P).Settled := by
  cases step with
  | chain matrices =>
    rcases setChain_on matrices P with ⟨e, hrun⟩ | ⟨chain, models, -, hmodels, hrun⟩
    · rw [WriteStep.after, WriteStep.run, hrun]
      exact hP
    · rw [WriteStep.after, WriteStep.run, hrun]
      exact settled_of_newModels hmodels rfl
  | measure choice stages =>
    exact Keeps.iff_on.mp (setMeasure_keeps
      (fun _ _ _ hP => ⟨hP.models, hP.first⟩) choice stages) P hP
  | tail weight level =>
    exact Keeps.iff_on.mp
      (setTail_keeps (fun _ _ _ hP => ⟨hP.models, hP.first⟩) weight level) P hP
  | model t k step =>
    have hstep (t : ℕ) : Keeps (Stage.Placed (t = 0)) step.run := Keeps.iff_on.mpr fun m hm =>
      (Stage.placed_lasting (t = 0)).after
        (fun _ _ hm => ⟨{ hm.settled with }, hm.unlinked⟩) step hm
    have hmodel (t k : ℕ) : Keeps (AllModels (fun t => Stage.Placed (t = 0)) P.pruning)
        (onModel t k step.run) :=
      onModel_allModels (hstep t)
    have hat : Keeps (AllModels (fun t => Stage.Placed (t = 0)) P.pruning)
        (onModelAt t k step.run) :=
      .get_bind fun P => .bind .ofExcept fun place => hmodel _ _
    exact settled_iff.mpr (Keeps.iff_on.mp hat P ⟨rfl, settled_iff.mp hP⟩).models
  | prepare => exact Keeps.iff_on.mp prepare_settled P hP

omit [IsStrictOrderedRing α] in
theorem Settled.write (hP : P.Settled) (steps : List (WriteStep α)) : (write steps P).Settled := by
  induction steps generalizing P with
  | nil => exact hP
  | cons step steps ih => exact ih (hP.after step)

end

end Recourse.Multistage
