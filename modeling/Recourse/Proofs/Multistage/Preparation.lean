import Recourse.Proofs.Multistage.Trained

/-! Preparing a problem establishes the invariant of training. The reachable models are worked
through stage by stage, first for their cost-to-go and then for their links; `Through` tells how far
the work has come. -/

namespace Recourse.Multistage

open Run (Triple)

variable {α : Type} [Field α] [LinearOrder α] {p P : Multistage α}

/-- A property of the models that are done, and another one of those that are not: done are all
stages before stage `t`, and some models of stage `t`. -/
def Through (φ ψ : ℕ → ℕ → Stage α → Stage α → Prop) (t : ℕ) (done : List ℕ) (t' k : ℕ)
    (base m : Stage α) : Prop :=
  if t' < t ∨ t' = t ∧ k ∈ done then ψ t' k base m else φ t' k base m

structure Underway (p : Multistage α) (φ : ℕ → ℕ → Stage α → Stage α → Prop) (P : Multistage α) :
    Prop where
  frame : P = { p with models := P.models }
  models : p.Each φ P

variable {φ ψ : ℕ → ℕ → Stage α → Stage α → Prop}

theorem onModel_underway (hp : p.WellFormed) {t k : ℕ} {done : List ℕ} (ht : t < p.horizon)
    (hk : k ∈ p.reachableStates t) (hdone : k ∉ done) {act : Stage.Edit α Unit}
    (h : ∀ base, p.stageAt t k = some base →
      Triple (φ t k base) act (fun _ => ψ t k base) fun _ => True) :
    Triple (p.Underway (Through φ ψ t done)) (onModel t k act)
      (fun _ => p.Underway (Through φ ψ t (k :: done))) fun _ => True := by
  refine onModel_triple (fun P m hP hm => ?_) fun _ _ _ => trivial
  obtain ⟨base, hbase⟩ := hp.reachable t ht k hk
  obtain ⟨m', hm', hφ⟩ := hP.models t k base ht hk hbase
  obtain rfl := Option.some.inj (hm.symm.trans hm')
  rw [Through, if_neg (by simp [hdone])] at hφ
  refine (h base hbase).conseq (fun _ hs => hs ▸ hφ) (fun _ m' hψ => ?_) fun _ _ => trivial
  refine ⟨by rw [hP.frame]; rfl,
    hP.models.put hm (fun base' _ _ hbase' => ?_) fun t' k' base' m'' hne hm'' => ?_⟩
  · obtain rfl := Option.some.inj (hbase.symm.trans hbase')
    rw [Through, if_pos (by simp)]
    exact hψ
  · have hsame : (t' < t ∨ t' = t ∧ k' ∈ k :: done) ↔ (t' < t ∨ t' = t ∧ k' ∈ done) := by
      constructor
      · rintro (hlt | ⟨rfl, hmem⟩)
        · exact .inl hlt
        · exact .inr ⟨rfl, List.mem_of_ne_of_mem (hne rfl) hmem⟩
      · rintro (hlt | ⟨rfl, hmem⟩)
        · exact .inl hlt
        · exact .inr ⟨rfl, List.mem_cons_of_mem _ hmem⟩
    simpa only [Through, hsame] using hm''

theorem onReachable_underway (hp : p.WellFormed) {t : ℕ} (ht : t < p.horizon)
    {act : Stage.Edit α Unit} (h : ∀ k ∈ p.reachableStates t, ∀ base, p.stageAt t k = some base →
      Triple (φ t k base) act (fun _ => ψ t k base) fun _ => True) :
    Triple (p.Underway (Through φ ψ t [])) (onReachable t act)
      (fun _ => p.Underway (Through φ ψ (t + 1) [])) fun _ => True := by
  have hloop (ks done : List ℕ) (hks : ks.Nodup)
      (hnew : ∀ k ∈ ks, k ∈ p.reachableStates t ∧ k ∉ done) :
      Triple (p.Underway (Through φ ψ t done)) (ks.forM fun k => onModel t k act)
        (fun _ => p.Underway (Through φ ψ t (ks.reverse ++ done))) fun _ => True := by
    induction ks generalizing done with
    | nil => exact Triple.pure fun _ hP => hP
    | cons k ks ih =>
      rw [List.nodup_cons] at hks
      obtain ⟨hk, hdone⟩ := hnew k (by simp)
      refine Triple.bind (onModel_underway hp ht hk hdone (h k hk)) fun _ => ?_
      rw [List.reverse_cons, List.append_assoc]
      refine ih (k :: done) hks.2 fun k' hk' => ⟨(hnew k' (by simp [hk'])).1, ?_⟩
      rintro hmem
      rcases List.mem_cons.mp hmem with rfl | hmem
      · exact hks.1 hk'
      · exact (hnew k' (by simp [hk'])).2 hmem
  refine Triple.get_bind fun P hP => ?_
  have hstates : P.reachableStates t = p.reachableStates t := by rw [hP.frame]; rfl
  rw [hstates]
  refine (hloop _ [] (nodup_reachableStates t) fun k hk => ⟨hk, by simp⟩).conseq
    (fun _ hs => hs ▸ hP) ?_
    fun _ _ => trivial
  rintro _ P' hP'
  refine ⟨hP'.frame, hP'.models.mono fun t' k base m _ hk _ hm => ?_⟩
  have hsame : (t' < t ∨ t' = t ∧ k ∈ (p.reachableStates t).reverse ++ []) ↔
      (t' < t + 1 ∨ t' = t + 1 ∧ k ∈ []) := by
    rw [List.append_nil, List.mem_reverse]
    constructor
    · rintro (hlt | ⟨rfl, -⟩)
      · exact .inl (by omega)
      · exact .inl (by omega)
    · rintro (hlt | ⟨-, hmem⟩)
      · rcases Nat.lt_succ_iff_lt_or_eq.mp hlt with hlt | rfl
        · exact .inl hlt
        · exact .inr ⟨rfl, hk⟩
      · simp at hmem
  simpa only [Through, hsame] using hm

omit [Field α] [LinearOrder α] in
theorem stages_underway (n : ℕ) {f : ℕ → Run α (Multistage α) Unit}
    (h : ∀ t < n, Triple (p.Underway (Through φ ψ t [])) (f t)
      (fun _ => p.Underway (Through φ ψ (t + 1) [])) fun _ => True) :
    Triple (p.Underway φ) ((List.range n).forM f) (fun _ => p.Underway (Through φ ψ n []))
      fun _ => True := by
  induction n with
  | zero =>
    refine Triple.pure fun P hP => ⟨hP.frame, hP.models.mono fun t k base m _ _ _ hm => ?_⟩
    rwa [Through, if_neg (by simp)]
  | succ n ih =>
    have hsplit : (List.range (n + 1)).forM f = (List.range n).forM f >>= fun _ => [n].forM f := by
      rw [List.range_succ]
      exact List.forM_append
    rw [hsplit]
    refine Triple.bind (ih fun t ht => h t (by omega)) fun _ => ?_
    exact Triple.bind (h n (by omega)) fun _ => Triple.pure fun _ hP => hP

/-! ### Preparation -/

private theorem Underway.isLagged_eq (hp : p.WellFormed) {t t' : ℕ} (ht : t < t')
    (ht' : t' < p.horizon)
    (h : p.Underway (Through (fun _ _ base m => m = base) ψ t []) P) :
    P.isLagged t' = p.isLagged t' := by
  have hstates : P.reachableStates t' = p.reachableStates t' := by rw [h.frame]; rfl
  have hmodel : ∀ k ∈ p.reachableStates t', P.stageAt t' k = p.stageAt t' k := by
    intro k hk
    obtain ⟨base, hbase⟩ := hp.reachable t' ht' k hk
    obtain ⟨m, hm, hsame⟩ := h.models t' k base ht' hk hbase
    rw [Through, if_neg (by simp; omega)] at hsame
    rw [hm, hbase, hsame]
  rw [Bool.eq_iff_iff, isLagged_iff, isLagged_iff, hstates]
  refine exists_congr fun k => and_congr_right fun hk => ?_
  rw [hmodel k hk]

variable [Numeral α]

variable {F : Prospect α}

def Equipped (p : Multistage α) (F : Prospect α) (t k : ℕ) (base m : Stage α) : Prop :=
  (p.junction F t k base).Unlinked m ∧ (p.junction F t k base).alpha.isSome = true

theorem setUpCostToGo_underway (hp : p.WellFormed) {t : ℕ} (ht : t + 1 < p.horizon) :
    Triple (p.Underway (Through (fun _ _ base m => m = base) (p.Equipped F) t [])) (setUpCostToGo t)
      (fun _ => p.Underway (Through (fun _ _ base m => m = base) (p.Equipped F) (t + 1) []))
      fun _ => True := by
  refine Triple.get_bind fun P hP => ?_
  have hbound : P.bound = p.bound := by rw [hP.frame]; rfl
  have hfields : P.discount = p.discount ∧ P.sense = p.sense ∧ P.pruning = p.pruning := by
    rw [hP.frame]
    exact ⟨rfl, rfl, rfl⟩
  rw [hP.isLagged_eq hp (Nat.lt_succ_self t) ht, hbound, hfields.1, hfields.2.1, hfields.2.2]
  refine (onReachable_underway hp (by omega) fun k hk base hbase => ?_).conseq (fun _ hs => hs ▸ hP)
    (fun _ _ hP => hP) fun _ hP => hP
  obtain ⟨hbase', hsense⟩ := hp.models t k base hk hbase
  refine Junction.setUpCostToGo_triple (j := p.junction F t k base) hbase' p.sense p.pruning
    fun limit hlimit => ?_
  change p.costToGoColumn? t = some (Junction.costToGoColumn base.sense p.discount limit)
  rw [costToGoColumn?, if_pos ht, hlimit, hsense]
  rfl

def Linked (p : Multistage α) (F : Prospect α) (t k : ℕ) (base m : Stage α) : Prop :=
  (p.junction F t k base).AtRest Junction.AnyLink m ∧ (p.junction F t k base).Complete m

theorem setUpLinks_underway (hp : p.WellFormed) {t : ℕ} (ht : t < p.horizon) :
    Triple (p.Underway (Through (fun t k base => (p.junction F t k base).Unlinked) (p.Linked F) t
      [])) (setUpLinks t)
      (fun _ => p.Underway (Through (fun t k base => (p.junction F t k base).Unlinked) (p.Linked F)
        (t + 1) []))
      fun _ => True :=
  onReachable_underway hp ht fun k hk base hbase =>
    Junction.setUpLinks_triple (hp.models t k base hk hbase).1

/-- Preparing a problem establishes the invariant of training. -/
theorem prepare_trained (hp : p.WellFormed) :
    Triple (· = p) prepare
      (fun _ P => p.Trained F P ∧ p.Checked ∧
        p.Each (fun t k base => (p.junction F t k base).Complete) P)
      fun _ => True := by
  refine Triple.get_bind fun P hP => ?_
  subst hP
  rw [if_neg (by simp [hp.unprepared])]
  refine Triple.bind (Q := fun _ P' => P' = P ∧ P.check = .ok ())
    (Triple.ofExcept (fun P' _ hP' h => ⟨hP', h⟩) fun _ _ => trivial) fun _ =>
    Triple.of_and fun hcheck => ?_
  refine Triple.bind (Q := fun _ => P.Underway
    (Through (fun _ _ base m => m = base) (P.Equipped F) (P.horizon - 1) []))
    ?_ fun _ P₁ hP₁ => ?_
  · refine (stages_underway (P.horizon - 1) fun t ht => setUpCostToGo_underway hp (by omega)).conseq
      (fun P' hP' => ?_) (fun _ _ hP' => hP') fun _ h => h
    rw [hP']
    exact ⟨rfl, fun t k base _ _ hbase => ⟨base, hbase, rfl⟩⟩
  have hchecked : P.Checked := by
    refine ⟨hp, aligned_of_check hcheck, fun hhorizon => ?_⟩
    obtain ⟨base, hbase⟩ := hp.reachable 0 hp.start.1 0 hp.start.2
    obtain ⟨m, -, hm⟩ := hP₁.models 0 0 base hp.start.1 hp.start.2 hbase
    rw [Through, if_pos (.inl (by omega))] at hm
    have hsome : (P.costToGoColumn? 0).isSome = true := hm.2
    rw [costToGoColumn?, if_pos (by omega), Option.isSome_map] at hsome
    cases hbound : P.bound with
    | error e => simp [hbound, Except.toOption] at hsome
    | ok limit => exact ⟨limit, rfl⟩
  have hunlinked : P.Underway (fun t k base => (P.junction F t k base).Unlinked) P₁ := by
    refine ⟨hP₁.frame, hP₁.models.mono fun t k base m ht hk hbase hm => ?_⟩
    by_cases hlast : t < P.horizon - 1
    · rw [Through, if_pos (.inl hlast)] at hm
      exact hm.1
    · rw [Through, if_neg (by simp [hlast])] at hm
      subst hm
      have hnone : P.costToGoColumn? t = none := if_neg (by omega)
      rw [junction, hnone]
      exact Junction.unlinked_of_none (hp.models t k m hk hbase).1
  refine Triple.bind (stages_underway P.horizon fun t ht => setUpLinks_underway hp ht)
    (fun _ => ?_) P₁ hunlinked
  refine Triple.modify fun P' hP' => ?_
  have hlinked : P.Each (P.Linked F) P' := hP'.models.mono fun t k base m ht _ _ hm => by
    rwa [Through, if_pos (.inl ht)] at hm
  refine ⟨⟨by rw [hP'.frame], hlinked.mono fun _ _ _ _ _ _ _ hm => hm.1, .inl ?_⟩, hchecked,
    hlinked.mono fun _ _ _ _ _ _ _ hm => hm.2⟩
  rw [hP'.frame]

end Recourse.Multistage
