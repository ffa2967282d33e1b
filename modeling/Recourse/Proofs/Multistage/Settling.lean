import Recourse.Proofs.Multistage.History
import Recourse.Proofs.Stage.Building
import Recourse.Proofs.Stage.Joined

/-! Writing is no work on a problem: rows are added under new identifiers, samples are entered for
rows that were added, and no cut arrives. Nor is preparation: the models get their cost-to-go
functions and their links, but no right-hand side is set. So a problem that was only built and
prepared is settled. -/

namespace Recourse

open Run (Triple Keeps)

variable {α : Type}

namespace Stage

variable {m : Stage α}

theorem WellFormed.settled (h : m.WellFormed) : m.Settled where
  rows := h.issued
  random := fun id hid => by
    obtain ⟨e, he, hid⟩ := List.mem_flatMap.mp hid
    exact h.random e he id hid
  links := fun id hid => by simp [linkRows, h.unlinked.1, h.unlinked.2.1] at hid
  fresh := fun ctg hctg => by simp [h.noCostToGo.2] at hctg

structure Placed (first : Bool) (m : Stage α) : Prop where
  settled : m.Settled
  unlinked : first = true → m.linkRows = []

variable [Scalar α] {first : Bool}

theorem setUpCostToGo_keeps {I : Stage α → Prop}
    (hI : ∀ (m : Stage α) columns costToGoColumn status solution, I m →
      I { m with columns, costToGoColumn, status, solution })
    (terms : Except (Fault α) (α × Limit α)) : Keeps I (setUpCostToGo terms) := by
  have hadd (name : String) (lower upper : Limit α) (cost : α) :
      Keeps I (addColumn name lower upper cost) :=
    Keeps.bind .ofExcept fun _ => Keeps.iff_on.mpr fun m hm => hI m _ m.costToGoColumn _ _ hm
  have hset (column : ℕ) :
      Keeps I (modify fun m : Stage α => { m with costToGoColumn := some column } :
      Edit α Unit) := Triple.modify fun m hm => hI m m.columns (some column) m.status m.solution hm
  have hcolumn (discount : α) (bound : Limit α) : Keeps I (addCostToGo discount bound) := by
    refine .get_bind fun m => ?_
    cases m.sense with
    | minimize => exact (hadd _ _ _ _).bind hset
    | maximize => exact (hadd _ _ _ _).bind hset
  exact .get_bind fun m => .ite .pure (.bind .ofExcept fun terms => hcolumn terms.1 terms.2)

theorem setUpCostToGo_placed (terms : Except (Fault α) (α × Limit α)) :
    Keeps (Placed first) (setUpCostToGo terms) :=
  setUpCostToGo_keeps (fun _ _ _ _ _ hm => ⟨{ hm.settled with }, hm.unlinked⟩) terms

theorem setUpPool_keeps (sense : Sense) (pruning lagged : Bool) :
    Keeps (Placed first) (setUpPool sense pruning lagged : Edit α Unit) := by
  refine Keeps.iff_on.mpr fun m hm => ⟨⟨?_, ?_, ?_, ?_⟩, ?_⟩ <;>
    simp only [Run.on, setUpPool] <;> rcases hctg : m.costToGo with _ | ctg
  · exact hm.settled.rows
  · exact hm.settled.rows
  · exact hm.settled.random
  · exact hm.settled.random
  · exact hm.settled.links
  · exact hm.settled.links
  · rintro _ ⟨⟩
    exact ⟨rfl, rfl, rfl⟩
  · exact fun ctg' hctg' => hm.settled.fresh ctg' hctg'
  · exact hm.unlinked
  · exact hm.unlinked

theorem placed_empty (first : Bool) (name : String) (stage markovState : Datum α) (sense : Sense)
    (settings : List (String × Datum α)) :
    Placed first { Stage.empty name stage markovState sense with settings } where
  settled := ⟨nofun, nofun, nofun, nofun⟩
  unlinked := fun _ => rfl

theorem placed_lasting (first : Bool) : Lasting (Placed first : Stage α → Prop) where
  putColumn := fun _ => Keeps.iff_on.mpr fun _ hm => ⟨{ hm.settled with }, hm.unlinked⟩
  unlist := fun _ _ hm => ⟨{ hm.settled with }, hm.unlinked⟩
  putRow := by
    refine fun name terms relation rhs => Keeps.iff_on.mpr fun m hm => ?_
    have hnext {id : ℕ} (hid : id < m.issued) : id < m.issued + 1 := hid.trans (Nat.lt_succ_self _)
    refine ⟨⟨fun r hr => ?_, fun id hid => hnext (hm.settled.random id hid), fun id hid =>
      hnext (hm.settled.links id hid),
      hm.settled.fresh⟩, hm.unlinked⟩
    rcases List.mem_append.mp hr with hr | hr
    · exact hnext (hm.settled.rows r hr)
    · obtain rfl := List.mem_singleton.mp hr
      exact Nat.lt_succ_self _
  removeRows := by
    refine fun ids => Keeps.iff_on.mpr fun m hm => ?_
    obtain ⟨status, solution, hrun⟩ := removeRows_on ids m
    rw [hrun]
    exact ⟨{ hm.settled with rows := fun r hr => hm.settled.rows r (List.mem_filter.mp hr).1 },
      hm.unlinked⟩
  states := fun _ _ _ _ hm => ⟨{ hm.settled with }, hm.unlinked⟩
  count := fun _ _ _ _ hm => ⟨{ hm.settled with }, hm.unlinked⟩
  random := by
    refine fun m random _ hrandom hm =>
      ⟨{ hm.settled with random := fun id hid => ?_ }, hm.unlinked⟩
    obtain ⟨e, he, hid⟩ := List.mem_flatMap.mp hid
    rcases hrandom e he with he | ⟨-, hrows⟩
    · exact hm.settled.random id (List.mem_flatMap.mpr ⟨e, he, hid⟩)
    · exact hrows id hid
  noise := fun _ _ _ _ _ _ hm => ⟨{ hm.settled with }, hm.unlinked⟩
  objective := by
    intro terms constant
    unfold setObjective
    split_ifs
    · exact Triple.throw_bind fun _ hm => hm
    · exact Triple.modify fun _ hm => ⟨{ hm.settled with }, hm.unlinked⟩
  sense := by
    refine fun sense => Keeps.iff_on.mpr fun m hm => ?_
    obtain ⟨status, solution, hrun⟩ := setSense_on sense m
    rw [hrun]
    exact ⟨{ hm.settled with }, hm.unlinked⟩

variable [Numeral α]

theorem fixInitial_keeps (pairs : List (ℕ × Datum α)) :
    Keeps (Placed first) (fixInitial pairs) := by
  induction pairs with
  | nil => exact .pure
  | cons cd pairs ih =>
    rw [fixInitial]
    exact .ite (Keeps.bind .ofExcept
      fun x => Keeps.bind ((placed_lasting first).addRow _ _ _ _) fun _ => ih) ih

omit [Numeral α] in
theorem addLinks_placed (known : List ℕ) (columns : List ℕ) (name : String) :
    Triple (fun m : Stage α => m.Placed first ∧ ∀ id ∈ known, id < m.issued) (addLinks columns name)
      (fun ids m => m.Placed first ∧ ∀ id ∈ ids ++ known, id < m.issued) (Placed first) := by
  refine Triple.get_bind_any fun s =>
    Triple.mapM_grow (J := fun known m => Placed first m ∧ ∀ id ∈ known, id < m.issued)
    (fun column _ known => (placed_lasting first).addRow_known known _ _ _ _)
    fun known known' m hsub hm => ?_
  exact ⟨hm.1, fun id hid => hm.2 id (hsub hid)⟩

theorem setUpLinks_keeps : Keeps (Placed first) (setUpLinks first : Edit α Unit) := by
  have hlinked : Keeps (Placed first)
      (modify fun m : Stage α => { m with linked := true } : Edit α Unit) :=
    Triple.modify fun m hm => ⟨{ hm.settled with }, hm.unlinked⟩
  refine .get_bind fun m => .ite .pure ?_
  cases first with
  | true => exact (fixInitial_keeps _).bind fun _ => hlinked
  | false =>
    refine Triple.bind ((addLinks_placed [] m.copies _).conseq
      (fun m hm => ⟨hm, fun id hid => absurd hid List.not_mem_nil⟩) (fun _ _ hm => hm) fun _ hm =>
      hm) fun links => ?_
    refine Triple.bind (addLinks_placed _ m.noiseCopies _) fun noiseLinks => ?_
    refine Triple.bind (Triple.modify fun m hm => ?_) fun _ => hlinked
    refine ⟨⟨hm.1.settled.rows, hm.1.settled.random, fun id hid => hm.2 id ?_, hm.1.settled.fresh⟩,
      nofun⟩
    simp only [linkRows, List.mem_append, List.append_nil] at hid ⊢
    exact hid.symm

theorem setUpLinks_invariant {I : Stage α → Prop}
    (hrows : ∀ (m : Stage α) rows issued status solution,
      I m → I { m with rows, issued, status, solution })
    (hlinks : ∀ (m : Stage α) links noiseLinks linked, I m → I { m with links, noiseLinks, linked })
    (first : Bool) :
    Keeps I (setUpLinks first : Edit α Unit) := by
  have hadd (name : String) (terms : List (ℕ × α)) (relation : Relation) (rhs : α) :
      Keeps I (addRow name terms relation rhs) := by
    have hput (name : String) : Keeps I (putRow name terms relation rhs) :=
      Keeps.iff_on.mpr fun m hm => hrows m _ _ _ _ hm
    unfold addRow
    split_ifs
    · exact Triple.throw_bind fun _ hm => hm
    · exact Triple.throw_bind fun _ hm => hm
    · exact Triple.throw_bind fun _ hm => hm
    · exact hput name
  have hinitial (pairs : List (ℕ × Datum α)) : Keeps I (fixInitial pairs) := by
    induction pairs with
    | nil => exact .pure
    | cons cd pairs ih => exact .ite (.bind .ofExcept fun _ => (hadd _ _ _ _).bind fun _ => ih) ih
  have hadds (columns : List ℕ) (name : String) : Keeps I (addLinks columns name) :=
    .get_bind fun m =>
      .of_triple (Triple.mapM (S := fun _ _ => True) fun _ _ => (hadd _ _ _ _).and_pure trivial)
  have hlinked : Keeps I (modify fun m : Stage α => { m with linked := true } : Edit α Unit) :=
    Triple.modify fun m hm => hlinks m m.links m.noiseLinks true hm
  refine .get_bind fun m => .ite .pure (.ite ((hinitial _).bind fun _ => hlinked) ?_)
  refine (hadds _ _).bind fun links =>
    (hadds _ _).bind fun noiseLinks => Keeps.bind ?_ fun _ => hlinked
  exact Triple.modify fun m hm => hlinks m links noiseLinks m.linked hm

structure Aimed (sense : Sense) (pruning : Bool) (m : Stage α) : Prop where
  sense : m.sense = sense
  pruning : ∀ ctg, m.costToGo = some ctg → ctg.pool.pruning = pruning

variable {sense : Sense} {pruning : Bool}

omit [Numeral α] in
theorem setUpPool_aimed (sense' : Sense) (lagged : Bool) :
    Keeps (Aimed sense pruning) (setUpPool sense' pruning lagged : Edit α Unit) := by
  refine Keeps.iff_on.mpr fun m hm => ?_
  simp only [Run.on, setUpPool]
  rcases hctg : m.costToGo with _ | ctg
  · refine ⟨hm.sense, ?_⟩
    rintro _ ⟨⟩
    rfl
  · exact hm

theorem setUpLinks_aimed (first : Bool) :
    Keeps (Aimed sense pruning) (setUpLinks first : Edit α Unit) :=
  setUpLinks_invariant (fun _ _ _ _ _ hm => ⟨hm.sense, hm.pruning⟩)
    (fun _ _ _ _ hm => ⟨hm.sense, hm.pruning⟩) first

end Stage

namespace Multistage

variable {P p P₀ : Multistage α} [Scalar α]

omit [Scalar α] in
theorem settled_iff : P.Settled ↔ ∀ t k m, P.stageAt t k = some m → m.Placed (t = 0) := by
  refine ⟨fun h t k m hm => ⟨h.models t k m hm, fun ht => ?_⟩, fun h =>
    ⟨fun t k m hm => (h t k m hm).settled,
    fun k m hm => (h 0 k m hm).unlinked rfl⟩⟩
  obtain rfl := of_decide_eq_true ht
  exact h.first k m hm

structure AllModels (φ : ℕ → Stage α → Prop) (pruning : Bool) (P : Multistage α) : Prop where
  pruning : P.pruning = pruning
  models : ∀ t k m, P.stageAt t k = some m → φ t m

variable {φ : ℕ → Stage α → Prop} {pruning : Bool}

omit [Scalar α] in
theorem onModel_allModels {t k : ℕ} {act : Stage.Edit α Unit} (h : Keeps (φ t) act) :
    Keeps (AllModels φ pruning) (onModel t k act) := by
  refine Keeps.iff_on.mpr fun P hP => ?_
  rcases hm : P.stageAt t k with _ | m
  · rwa [onModel_on_none hm]
  · rw [onModel_on_some hm]
    refine ⟨hP.pruning, fun t' k' m' hm' => ?_⟩
    rcases stageAt_put_cases hm hm' with ⟨rfl, rfl, rfl⟩ | hm'
    · exact Keeps.iff_on.mp h m (hP.models _ _ m hm)
    · exact hP.models t' k' m' hm'

omit [Scalar α] in
theorem onReachable_allModels {t : ℕ} {act : Stage.Edit α Unit} (h : Keeps (φ t) act) :
    Keeps (AllModels φ pruning) (onReachable t act) :=
  .get_bind fun _ => Triple.forM fun _ _ => onModel_allModels h

variable [Numeral α]

/-- What preparation keeps: both halves of the work on each model keep it. -/
theorem prepare_keeps_of {I : Multistage α → Prop}
    (hequip : ∀ t k terms sense pruning lagged,
      Keeps I (onModel t k (do Stage.setUpCostToGo terms; Stage.setUpPool sense pruning lagged)))
    (hlinks : ∀ t k first, Keeps I (onModel t k (Stage.setUpLinks first)))
    (hprepared : ∀ P, I P → I { P with prepared := true }) : Keeps I prepare := by
  refine .get_bind fun P =>
    .ite .pure (.bind .ofExcept fun _ => Keeps.bind (Triple.forM fun t _ => ?_) fun _ => ?_)
  · exact Keeps.get_bind fun P => Keeps.get_bind fun P' => Triple.forM fun k _ => hequip t k _ _ _ _
  · refine Keeps.bind (Triple.forM fun t _ => ?_) fun _ => Triple.modify hprepared
    exact Keeps.get_bind fun P => Triple.forM fun k _ => hlinks t k _

theorem prepare_allModels (hcostToGo : ∀ t terms, Keeps (φ t) (Stage.setUpCostToGo terms))
    (hpool : ∀ t sense lagged,
      Keeps (φ t) (Stage.setUpPool sense pruning lagged : Stage.Edit α Unit))
    (hlinks : ∀ t : ℕ, Keeps (φ t) (Stage.setUpLinks (t = 0) : Stage.Edit α Unit)) :
    Keeps (AllModels φ pruning) (prepare : Run α (Multistage α) Unit) := by
  have hcosts (t : ℕ) : Keeps (AllModels φ pruning)
      (setUpCostToGo t : Run α (Multistage α) Unit) := by
    refine Triple.get_bind fun P hP => ?_
    rw [hP.pruning]
    exact (onReachable_allModels ((hcostToGo t _).bind fun _ => hpool t _ _)).conseq
      (fun _ hP' => hP' ▸ hP)
      (fun _ _ hP => hP) fun _ hP => hP
  have hlink (t : ℕ) : Keeps (AllModels φ pruning) (setUpLinks t : Run α (Multistage α) Unit) :=
    onReachable_allModels (hlinks t)
  refine .get_bind fun P =>
    .ite .pure (.bind .ofExcept fun _ => Keeps.bind (Triple.forM fun t _ => hcosts t) fun _ => ?_)
  refine Keeps.bind (Triple.forM fun t _ => hlink t) fun _ => Triple.modify fun P hP => ?_
  exact ⟨hP.pruning, hP.models⟩

theorem prepare_settled : Keeps Settled (prepare : Run α (Multistage α) Unit) := by
  refine Keeps.iff_on.mpr fun P hP => settled_iff.mpr ?_
  have hprepare : Keeps (AllModels (fun t m => m.Placed (t = 0)) P.pruning)
      (prepare : Run α (Multistage α) Unit) :=
    prepare_allModels (fun _ => Stage.setUpCostToGo_placed)
      (fun _ _ _ => Stage.setUpPool_keeps _ _ _) fun _ =>
      Stage.setUpLinks_keeps
  exact (Keeps.iff_on.mp hprepare P ⟨rfl, settled_iff.mp hP⟩).models

theorem check_of_prepare (hp : p.prepared = false) (h : prepare.on p = (.ok (), P₀)) :
    p.check = .ok () := by
  rw [prepare, Run.bind_ok _ (Run.get_on p), if_neg (by simp [hp])] at h
  obtain ⟨_, _, hcheck, -⟩ := Run.exists_of_bind h
  exact congrArg Prod.fst hcheck

/-- A problem that is prepared and on which no work was done yet. -/
structure Fresh (P₀ : Multistage α) : Prop extends Settled P₀ where
  prepared : P₀.prepared = true

theorem Settled.fresh (hp : p.Settled) (h : prepare.on p = (.ok (), P₀)) : P₀.Fresh where
  toSettled := by
    have hP₀ := Keeps.iff_on.mp prepare_settled p hp
    rwa [h] at hP₀
  prepared := (prepare_prepared p trivial).1 () P₀ h

/-- Preparation changes no sense, and whether pools prune is up to the problem. -/
theorem aimed_of_prepare {sense : Sense}
    (hp : ∀ t k m, p.stageAt t k = some m → m.WellFormed ∧ m.sense = sense)
    (h : prepare.on p = (.ok (), P₀)) {t k : ℕ} {m : Stage α} (hm : P₀.stageAt t k = some m) :
    m.Aimed sense p.pruning := by
  have hcostToGo (terms : Except (Fault α) (α × Limit α)) :
      Keeps (Stage.Aimed sense p.pruning) (Stage.setUpCostToGo terms) :=
    Stage.setUpCostToGo_keeps (fun _ _ _ _ _ hm => ⟨hm.sense, hm.pruning⟩) terms
  have hprepare : Keeps (AllModels (fun _ => Stage.Aimed sense p.pruning) p.pruning)
      (prepare : Run α (Multistage α) Unit) :=
    prepare_allModels (fun _ => hcostToGo) (fun _ _ _ => Stage.setUpPool_aimed _ _) fun _ =>
      Stage.setUpLinks_aimed _
  have hstart : AllModels (fun _ => Stage.Aimed sense p.pruning) p.pruning p := by
    refine ⟨rfl, fun t k m hm => ⟨(hp t k m hm).2, fun ctg hctg => ?_⟩⟩
    rw [(hp t k m hm).1.noCostToGo.2] at hctg
    cases hctg
  have hP₀ := Keeps.iff_on.mp hprepare p hstart
  rw [h] at hP₀
  exact hP₀.models t k m hm

omit [Scalar α] [Numeral α] in
theorem settled_of_wellFormed (hp : ∀ t k m, p.stageAt t k = some m → m.WellFormed) :
    p.Settled where
  models := fun t k m hm => (hp t k m hm).settled
  first := fun k m hm => by simp [Stage.linkRows, (hp 0 k m hm).unlinked]

end Multistage

end Recourse
