import Recourse.Proofs.Markov.Chain
import Recourse.Proofs.Multistage.CostToGo
import Recourse.Proofs.Stage.Attachment

/-! Models as they are written. A call may fail, and then it leaves behind what it has done;
whatever the calls are and however they end, they come down to columns and rows that are put in
place, samples that are entered for rows, and states that are registered. What these keep is kept by
all of writing. -/

namespace Recourse.Stage

open Run (Keeps Triple)

variable {α : Type}

inductive BuildStep (α : Type) where
  | column (r : Request α)
  | columns (axes : List (Datum α)) (r : Request α)
  | state (r : Request α) (initial : Datum α)
  | states (axes : List (Datum α)) (r : Request α) (initial : Datum α)
  | row (c : Constraint α) (name : Datum α) (uncertainty : Option (Datum α))
  | rows (cs : List (Except (Fault α) (Constraint α))) (name : Datum α)
      (uncertainty : Option (Datum α))
  | noise (innovations : Datum α) (coefficients : Option (Datum α)) (name : Datum α)
  | objective (terms : List (ℕ × α)) (constant : α)
  | sense (d : Datum α)
  | probability (d : Datum α)

variable [Scalar α] [Numeral α]

def BuildStep.run : BuildStep α → Edit α Unit
  | .column r => do let _ ← addVariable r
  | .columns axes r => do let _ ← addFamily axes r
  | .state r initial => do let _ ← addStateVariable r initial
  | .states axes r initial => do let _ ← addStateFamily axes r initial
  | .row c name uncertainty => do let _ ← addConstraint c name uncertainty
  | .rows cs name uncertainty => do let _ ← addConstraints cs name uncertainty
  | .noise innovations coefficients name => do let _ ← addLaggedNoise innovations coefficients name
  | .objective terms constant => setObjective terms constant
  | .sense d => setSenseFrom d
  | .probability d => setProbability d

def BuildStep.after (step : BuildStep α) (m : Stage α) : Stage α := (step.run.on m).2

def build (steps : List (BuildStep α)) (m : Stage α) : Stage α :=
  steps.foldl (fun m step => step.after m) m

@[simp] theorem build_nil (m : Stage α) : build [] m = m := rfl

theorem build_append (steps steps' : List (BuildStep α)) (m : Stage α) :
    build (steps ++ steps') m = build steps' (build steps m) := by
  unfold build
  rw [List.foldl_append]

@[simp] theorem build_concat (steps : List (BuildStep α)) (step : BuildStep α) (m : Stage α) :
    build (steps ++ [step]) m = step.after (build steps m) := build_append steps [step] m

/-! ### Families -/

variable {keys : List (List (Datum α))}

omit [Scalar α] [Numeral α] in
theorem length_forMembers {d : Datum α} {ds : List (Datum α)} (h : d.forMembers keys = .ok ds) :
    ds.length = keys.length := by
  unfold Datum.forMembers at h
  split at h
  · split_ifs at h with hlength
    obtain rfl := Except.ok.inj h
    exact hlength
  · exact (forall₂_of_mapM h).length_eq.symm
  · obtain rfl := Except.ok.inj h
    exact List.length_map _

omit [Scalar α] in
theorem length_memberNames {d : Datum α} {names : List String}
    (h : Datum.memberNames keys d = .ok names) : names.length = keys.length := by
  unfold Datum.memberNames at h
  split at h
  · obtain rfl := Except.ok.inj h
    exact List.length_map _
  · obtain ⟨ds, hds, h⟩ := ok_of_bind h
    rw [← (forall₂_of_mapM h).length_eq, length_forMembers hds]
  · cases h

/-! ### Columns and rows -/

/-- A property of a model that does not end when columns and rows are put in place, or rows are
taken away. -/
structure Open (I : Stage α → Prop) : Prop where
  putColumn : ∀ c, Keeps I (putColumn c)
  unlist : ∀ m unlisted, I m → I { m with unlisted }
  putRow : ∀ name terms relation rhs, Keeps I (putRow name terms relation rhs)
  removeRows : ∀ ids, Keeps I (removeRows ids)

namespace Open

variable {I : Stage α → Prop}

omit [Numeral α] in
theorem and {J : Stage α → Prop} (h : Open I) (h' : Open J) : Open fun m => I m ∧ J m where
  putColumn := fun c => (h.putColumn c).and (h'.putColumn c)
  unlist := fun m unlisted hm => ⟨h.unlist m unlisted hm.1, h'.unlist m unlisted hm.2⟩
  putRow := fun name terms relation rhs =>
  (h.putRow name terms relation rhs).and (h'.putRow name terms relation rhs)
  removeRows := fun ids => (h.removeRows ids).and (h'.removeRows ids)

omit [Numeral α] in
theorem of_scenarios (J : ℕ → List (RandomRhs α) → Option (List α) → List ℕ → Prop) :
    Open fun m : Stage α => J m.sampleCount m.random m.probability m.noise where
  putColumn := fun _ => Keeps.iff_on.mpr fun _ hm => hm
  unlist := fun _ _ hm => hm
  putRow := fun _ _ _ _ => Keeps.iff_on.mpr fun _ hm => hm
  removeRows := fun ids => Keeps.iff_on.mpr fun m hm => by
    obtain ⟨status, solution, hrun⟩ := removeRows_on ids m
    rw [hrun]
    exact hm

variable (h : Open I)
include h

theorem addVariable (r : Request α) : Keeps I (addVariable r) := by
  refine Keeps.bind .ofExcept fun c => Keeps.bind .ofExcept fun _ => ?_
  exact h.putColumn c

omit [Numeral α]

theorem addColumns (cs : List (Column α)) : Keeps I (addColumns cs) := by
  refine Keeps.bind (Triple.forM fun c _ => Keeps.ofExcept) fun _ => ?_
  exact Keeps.of_triple (Triple.mapM (S := fun _ _ => True)
    fun c _ => (h.putColumn c).and_pure trivial)

theorem addFree [Numeral α] (n : ℕ) (name : Datum α) :
    Triple I (addFree n name) (fun columns m => I m ∧ columns.length = n) I := by
  refine Triple.bind (Q := fun names m => I m ∧ names.length = n)
    (Triple.ofExcept (fun names m hm hnames => ⟨hm, ?_⟩) fun _ hm => hm) fun names => ?_
  · rw [length_memberNames hnames, List.length_map, List.length_range]
  refine Triple.of_and fun hlength => ?_
  refine Triple.bind (Triple.forM fun c _ => Keeps.ofExcept) fun _ => ?_
  refine (Triple.mapM (S := fun _ _ => True) fun c _ => (h.putColumn c).and_pure trivial).conseq
    (fun _ hm => hm) ?_ fun _ hm => hm
  intro columns m hm
  refine ⟨hm.1, ?_⟩
  rw [← hm.2.length_eq, List.length_map, hlength]

theorem addFamily [Numeral α] (axes : List (Datum α)) (r : Request α) :
    Keeps I (addFamily axes r) := by
  refine Keeps.bind .ofExcept fun keys =>
    Keeps.bind .ofExcept fun cs => (h.addColumns cs).bind fun columns => ?_
  have hrefuse (e : Fault α) : Keeps I (do
      modify fun s : Stage α => { s with unlisted := s.unlisted ++ columns }
      throw e : Edit α Unit) :=
    Keeps.bind (Triple.modify fun m hm => h.unlist m _ hm) fun _ => .throw
  dsimp only
  split_ifs
  · exact (hrefuse _).bind fun _ => .bind (hrefuse _) fun _ => .pure
  · exact (hrefuse _).bind fun _ => .pure
  · exact (hrefuse _).bind fun _ => .pure
  · exact Keeps.pure

theorem addRow (name : String) (terms : List (ℕ × α)) (relation : Relation) (rhs : α) :
    Keeps I (addRow name terms relation rhs) := by
  unfold Stage.addRow
  split_ifs <;> first
    | exact Triple.throw_bind fun _ hm => hm
    | exact h.putRow name terms relation rhs

theorem addRow_known (known : List ℕ) (name : String) (terms : List (ℕ × α)) (relation : Relation)
    (rhs : α) :
    Triple (fun m => I m ∧ ∀ id ∈ known, id < m.issued) (Stage.addRow name terms relation rhs)
      (fun id m => I m ∧ ∀ id' ∈ id :: known, id' < m.issued) I := by
  have hput (name : String) : Triple (fun m => I m ∧ ∀ id ∈ known, id < m.issued)
      (Stage.putRow name terms relation rhs)
      (fun id m => I m ∧ ∀ id' ∈ id :: known, id' < m.issued) I := by
    refine fun m hm =>
      ⟨fun id m' hrun => ⟨((h.putRow name terms relation rhs) m hm.1).1 id m' hrun, ?_⟩,
      fun e m' hrun => ?_⟩ <;>
      cases hrun
    intro id hid
    rcases List.mem_cons.mp hid with rfl | hid
    · exact Nat.lt_succ_self _
    · exact (hm.2 id hid).trans (Nat.lt_succ_self _)
  unfold Stage.addRow
  split_ifs
  · exact Triple.throw_bind fun _ hm => hm.1
  · exact Triple.throw_bind fun _ hm => hm.1
  · exact Triple.throw_bind fun _ hm => hm.1
  · exact hput name

omit [Scalar α] h in
theorem mapM_known {ι : Type} {f : ι → Edit α ℕ} {xs : List ι}
    (hf : ∀ x ∈ xs, ∀ known : List ℕ,
      Triple (fun m => I m ∧ ∀ id ∈ known, id < m.issued) (f x)
      (fun id m => I m ∧ ∀ id' ∈ id :: known, id' < m.issued) I) :
    Triple I (xs.mapM f) (fun ids m => I m ∧ ∀ id ∈ ids, id < m.issued) I := by
  have hgrow (known : List ℕ) : Triple (fun m => I m ∧ ∀ id ∈ known, id < m.issued) (xs.mapM f)
      (fun ids m => I m ∧ ∀ id ∈ ids ++ known, id < m.issued) I :=
    Triple.mapM_grow (J := fun known m => I m ∧ ∀ id ∈ known, id < m.issued) hf
      fun known known' m hsub hm => ⟨hm.1, fun id hid => hm.2 id (hsub hid)⟩
  refine (hgrow []).conseq (fun m hm => ⟨hm, by simp⟩) (fun ids m hm => ?_) fun _ hm => hm
  rwa [List.append_nil] at hm

theorem addBlock [Numeral α] (cs : List (Except (Fault α) (Constraint α))) (name : Datum α) :
    Triple I (Stage.addBlock cs name) (fun ids m => I m ∧ ∀ id ∈ ids, id < m.issued) I := by
  refine Triple.bind (Q := fun _ => I) Keeps.ofExcept fun name => mapM_known fun _ _ known => ?_
  refine Triple.bind (Q := fun _ m => I m ∧ ∀ id ∈ known, id < m.issued) ?_ fun _ => ?_
  · exact Triple.ofExcept (fun _ _ hm _ => hm) fun _ hm => hm.1
  · exact h.addRow_known known _ _ _ _

theorem addCombination (known : List ℕ) (name : String) (column : ℕ) (past : List ℕ)
    (line : List α) :
    Triple (fun m => I m ∧ ∀ id ∈ known, id < m.issued) (Stage.addCombination name column past line)
      (fun id m => I m ∧ ∀ id' ∈ id :: known, id' < m.issued) I :=
  Triple.bind (Q := fun _ m => I m ∧ ∀ id ∈ known, id < m.issued)
    (Triple.ofExcept (fun _ _ hm _ => hm) fun _ hm => hm.1) fun _ => h.addRow_known known _ _ _ _

end Open

/-! ### Samples -/

omit [Scalar α] [Numeral α] in
/-- Samples that are accepted are as many as there are scenarios from then on. -/
theorem checkSampleCount_triple {I : Stage α → Prop}
    (hcount : ∀ m n, n ≠ 0 → m.random = [] → I m → I { m with sampleCount := n }) (samples : Grid α)
    (count : ℕ) :
    Triple I (checkSampleCount samples count) (fun _ m => I m ∧ m.sampleCount = count) I := by
  intro m hm
  by_cases hzero : count = 0
  · simp only [Run.on, checkSampleCount, hzero, if_true]
    refine ⟨fun _ m' hrun => ?_, fun e m' hrun => ?_⟩ <;> cases hrun
    exact hm
  by_cases hempty : m.random.isEmpty = true
  · simp only [Run.on, checkSampleCount, hzero, hempty, if_true, if_false]
    refine ⟨fun _ m' hrun => ?_, fun e m' hrun => ?_⟩ <;> cases hrun
    exact ⟨hcount m count hzero (List.isEmpty_iff.mp hempty) hm, rfl⟩
  by_cases hsame : m.sampleCount = count
  · simp only [Run.on, checkSampleCount, hzero, hempty, ne_eq, hsame, not_true_eq_false, if_false]
    refine ⟨fun _ m' hrun => ?_, fun e m' hrun => ?_⟩ <;> cases hrun
    exact ⟨hm, hsame⟩
  · simp only [Run.on, checkSampleCount, hzero, hempty, ne_eq, hsame, not_false_eq_true,
      if_true, if_false]
    refine ⟨fun _ m' hrun => ?_, fun e m' hrun => ?_⟩ <;> cases hrun
    exact hm

omit [Scalar α] [Numeral α] in
theorem checkBlock_triple {I : Stage α → Prop}
    (hcount : ∀ m n, n ≠ 0 → m.random = [] → I m → I { m with sampleCount := n }) (samples : Grid α)
    (width : ℕ) :
    Triple I (checkBlock samples width) (fun rows m => I m ∧ m.sampleCount = rows.length) I := by
  cases samples with
  | matrix w rows =>
    unfold checkBlock
    dsimp only
    split_ifs
    · exact Triple.throw_bind fun _ hm => hm
    · exact Triple.bind (checkSampleCount_triple hcount _ _) fun _ => Triple.pure fun _ hm => hm
  | _ => exact Triple.throw fun _ hm => hm

theorem checkSamples_triple {I : Stage α → Prop}
    (hcount : ∀ m n, n ≠ 0 → m.random = [] → I m → I { m with sampleCount := n }) (d : Datum α) :
    Triple I (checkSamples d) (fun xs m => I m ∧ m.sampleCount = xs.length) I := by
  unfold checkSamples
  split
  · refine Triple.bind (Q := fun _ => I) (Triple.ofExcept (fun _ _ hm _ => hm) fun _ hm => hm)
      fun g => ?_
    split
    · exact Triple.bind (checkSampleCount_triple hcount _ _) fun _ => Triple.pure fun _ hm => hm
    · exact Triple.throw fun _ hm => hm
  · exact Triple.throw fun _ hm => hm
  · exact Triple.throw fun _ hm => hm

omit [Scalar α] [Numeral α] in
/-- What is entered takes the place of what was there for the same rows, or stands behind the
rest. -/
theorem assign_spec (entry : RandomRhs α) (m : Stage α) :
    ∃ random, (assign entry).on m = (.ok (), { m with random }) ∧
    random ≠ [] ∧ ∀ e ∈ random, e ∈ m.random ∨ e = entry := by
  refine ⟨_, rfl, ?_, ?_⟩
  · dsimp only
    split_ifs with hany
    · intro hnil
      rw [List.map_eq_nil_iff] at hnil
      simp [hnil] at hany
    · simp
  · dsimp only
    intro e he
    split_ifs at he with hany
    · obtain ⟨r, hr, rfl⟩ := List.mem_map.mp he
      split_ifs
      · exact .inr rfl
      · exact .inl hr
    · rcases List.mem_append.mp he with he | he
      · exact .inl he
      · exact .inr (List.mem_singleton.mp he)

theorem coefficientMatrix_spec {d : Option (Datum α)} {dimension : ℕ} {matrix : ℕ × List (List α)}
    (h : coefficientMatrix d dimension = .ok matrix) : dimension = 0 → matrix.1 = 0 := by
  intro hzero
  subst hzero
  cases d with
  | none =>
    cases h
    rfl
  | some d =>
    unfold coefficientMatrix at h
    dsimp only at h
    split at h
    · cases h
    · next width rows hgrid =>
      split_ifs at h with hrows
      exact absurd (List.length_eq_zero_iff.mp hrows) (Datum.ne_nil_of_grid hgrid)
    · cases h

/-! ### Calls -/

omit [Scalar α] [Numeral α] in
theorem setSense_on (sense : Sense) (m : Stage α) : ∃ status solution,
    (setSense sense).on m = (.ok (), { m with sense, status, solution }) := by
  by_cases hsame : m.sense = sense
  · refine ⟨m.status, m.solution, ?_⟩
    simp only [Run.on, setSense, hsame, if_true]
    rw [← hsame]
  · refine ⟨.pending, none, ?_⟩
    simp only [Run.on, setSense, hsame, if_false]
    rfl

/-- A property of a model that is kept by whatever writing it consists of, but for its
probabilities. -/
structure Lasting (I : Stage α → Prop) : Prop extends Open I where
  states : ∀ m states copies initial, I m →
    I { m with
      initial := m.initial ++ initial, states := m.states ++ states, copies := m.copies ++ copies }
  count : ∀ m n, n ≠ 0 → m.random = [] → I m → I { m with sampleCount := n }
  random : ∀ m random, random ≠ [] →
    (∀ e ∈ random, e ∈ m.random ∨ e.sampleCount = m.sampleCount ∧ ∀ id ∈ e.rows, id < m.issued) →
      I m → I { m with random }
  noise : ∀ m noise noiseCopies coefficients, m.noise = [] → (noise = [] → noiseCopies = []) → I m →
    I { m with noise, noiseCopies, coefficients }
  objective : ∀ terms constant, Keeps I (setObjective terms constant)
  sense : ∀ sense, Keeps I (setSense sense)

namespace Lasting

variable {I : Stage α → Prop} (h : Lasting I)
include h

omit [Numeral α] in
theorem assign (entry : RandomRhs α) {m : Stage α} (hm : I m)
    (hentry : entry.sampleCount = m.sampleCount) (hrows : ∀ id ∈ entry.rows, id < m.issued) :
    I ((Stage.assign entry).on m).2 := by
  obtain ⟨random, hrun, hne, hrandom⟩ := assign_spec entry m
  rw [hrun]
  refine h.random m random hne (fun e he => ?_) hm
  rcases hrandom e he with he | rfl
  · exact .inl he
  · exact .inr ⟨hentry, hrows⟩

theorem enterStates (states copies : List ℕ) (initial : Datum α) :
    Keeps I (enterStates states copies initial) := by
  refine .get_bind fun _ => Keeps.bind .ofExcept fun values => ?_
  refine Keeps.bind (Triple.modify fun m hm => ?_) fun _ => .pure
  exact h.states m states copies values hm

theorem addStateVariable (r : Request α) (initial : Datum α) :
    Keeps I (addStateVariable r initial) := by
  have hadd : Keeps I (do
      let state ← Stage.addVariable r
      let name ← Run.ofExcept (copyName r.name)
      let copy ← Stage.addVariable { r with name, cost := .int 0 }
      Stage.enterStates [state] [copy] initial) := by
    refine (h.addVariable r).bind fun state => Keeps.bind .ofExcept fun name => ?_
    exact (h.addVariable _).bind fun copy => h.enterStates [state] [copy] initial
  refine Keeps.bind .ofExcept fun exceeds => ?_
  dsimp only
  split_ifs
  · exact Triple.throw_bind fun _ hm => hm
  · exact hadd

theorem addStateFamily (axes : List (Datum α)) (r : Request α) (initial : Datum α) :
    Keeps I (addStateFamily axes r initial) := by
  have hadd : Keeps I (do
      let states ← Stage.addFamily axes r
      let name ← Run.ofExcept (copyName r.name)
      let copies ← Stage.addFamily axes { r with name, cost := .int 0 }
      Stage.enterStates states copies initial) := by
    refine (h.addFamily axes r).bind fun states => Keeps.bind .ofExcept fun name => ?_
    exact (h.addFamily axes _).bind fun copies => h.enterStates states copies initial
  refine Keeps.bind .ofExcept fun below => ?_
  dsimp only
  split_ifs
  · exact Triple.throw_bind fun _ hm => hm
  · exact hadd

omit [Numeral α] in
private theorem assign_triple (entry : RandomRhs α) :
    Triple (fun m => (I m ∧ m.sampleCount = entry.sampleCount) ∧ ∀ id ∈ entry.rows, id < m.issued)
      (Stage.assign entry)
      (fun _ => I) I := by
  refine fun m hm => ⟨fun _ m' hrun => ?_, fun e m' hrun => ?_⟩
  · obtain rfl := (Prod.mk.inj hrun).2
    exact h.assign entry hm.1.1 hm.1.2.symm hm.2
  · cases hrun

theorem addConstraint (c : Constraint α) (name : Datum α) (uncertainty : Option (Datum α)) :
    Keeps I (addConstraint c name uncertainty) := by
  cases uncertainty with
  | none => exact Keeps.bind .ofExcept fun name => h.addRow _ _ _ _
  | some u =>
    refine Triple.bind (checkSamples_triple h.count u) fun samples => ?_
    refine Triple.bind (Q := fun _ m => I m ∧ m.sampleCount = samples.length)
      (Triple.ofExcept (fun _ _ hm _ => hm) fun _ hm => hm.1) fun name => ?_
    -- adding the row does not change the number of scenarios, which the samples were compared with
    have hopen := h.and (.of_scenarios fun n _ _ _ => n = samples.length)
    have hrow := hopen.addRow_known [] name c.gathered c.relation (c.rhs - c.constant)
    refine Triple.bind (hrow.conseq (fun _ hm => ⟨hm, by simp⟩) (fun _ _ hm => hm) fun _ hm => hm.1)
      fun id => ?_
    exact Triple.bind (h.assign_triple (.single id samples)) fun _ => Triple.pure fun _ hm => hm

theorem addConstraints (cs : List (Except (Fault α) (Constraint α))) (name : Datum α)
    (uncertainty : Option (Datum α)) : Keeps I (addConstraints cs name uncertainty) := by
  refine Triple.bind (h.addBlock cs name) fun ids => ?_
  cases uncertainty with
  | none => exact Triple.pure fun _ hm => hm.1
  | some u =>
    refine Triple.tryCatch (E := I) ?_ fun e => ?_
    · refine Triple.bind (Q := fun _ m => I m ∧ ∀ id ∈ ids, id < m.issued)
        (Triple.ofExcept (fun _ _ hm _ => hm) fun _ hm => hm.1) fun samples => ?_
      -- comparing the number of scenarios adds no row
      have hcheck := checkBlock_triple (I := fun m => I m ∧ ∀ id ∈ ids, id < m.issued)
        (fun m n hn hrandom hm => ⟨h.count m n hn hrandom hm.1, hm.2⟩) samples ids.length
      refine Triple.bind (hcheck.conseq (fun _ hm => hm) (fun _ _ hm => hm) fun _ hm => hm.1)
        fun rows => ?_
      exact Triple.bind ((h.assign_triple (.block ids rows)).conseq
        (fun _ hm => ⟨⟨hm.1.1, hm.2⟩, hm.1.2⟩) (fun _ _ hm => hm)
        fun _ hm => hm) fun _ => Triple.pure fun _ hm => hm
    · cases e
      case overflow => exact Keeps.throw
      all_goals exact (h.removeRows ids).bind fun _ => .throw

theorem addLaggedNoise (innovations : Datum α) (coefficients : Option (Datum α)) (name : Datum α) :
    Keeps I (addLaggedNoise innovations coefficients name) := by
  refine Triple.get_bind fun m hm => ?_
  dsimp only
  split_ifs with hnoise
  · exact Triple.throw_bind fun _ hs => hs ▸ hm
  have hempty : m.noise = [] := by simpa using hnoise
  refine Triple.conseq (P := fun m => I m ∧ m.noise = []) ?_ (fun s hs => hs ▸ ⟨hm, hempty⟩)
    (fun _ _ hs => hs)
    fun _ hs => hs
  have hother {β : Type} (r : Except (Fault α) β) :
      Triple (fun m => I m ∧ m.noise = []) (Run.ofExcept r : Edit α β)
      (fun _ m => I m ∧ m.noise = []) I :=
    Triple.ofExcept (fun _ _ hm _ => hm) fun _ hm => hm.1
  refine Triple.bind (hother _) fun matrix => ?_
  refine Triple.bind (Q := fun coefficients m => (I m ∧ m.noise = []) ∧
    (matrix.1 = 0 → coefficients.1 = 0))
    (Triple.ofExcept (fun _ _ hm h => ⟨hm, coefficientMatrix_spec h⟩) fun _ hm => hm.1)
    fun coefficients => ?_
  refine Triple.of_and fun hwidth => ?_
  -- from here on the number of scenarios is that of the innovations, and there is no noise yet
  have hcheck := checkBlock_triple (I := fun m => I m ∧ m.noise = [])
    (fun m n hn hrandom hm => ⟨h.count m n hn hrandom hm.1, hm.2⟩)
    (.matrix matrix.1 matrix.2) matrix.1
  refine Triple.bind (hcheck.conseq (fun _ hm => hm) (fun _ _ hm => hm) fun _ hm => hm.1)
    fun samples => ?_
  have hopen := h.and (.of_scenarios fun n _ _ noise => noise = [] ∧ n = samples.length)
  refine Triple.conseq (P := fun m => I m ∧ m.noise = [] ∧ m.sampleCount = samples.length) ?_
    (fun _ hm => ⟨hm.1.1, hm.1.2, hm.2⟩) (fun _ _ hm => hm) fun _ hm => hm
  refine Triple.bind ((hopen.addFree _ _).conseq (fun _ hm => hm) (fun _ _ hm => hm)
    fun _ hm => hm.1) fun noise => ?_
  refine Triple.of_and fun hnoise => ?_
  refine Triple.bind (Q := fun _ m => I m ∧ m.noise = [] ∧ m.sampleCount = samples.length)
    (Triple.ofExcept (fun _ _ hm _ => hm) fun _ hm => hm.1) fun name => ?_
  refine Triple.bind ((hopen.addFree _ _).conseq (fun _ hm => hm) (fun _ _ hm => hm)
    fun _ hm => hm.1) fun past => ?_
  refine Triple.of_and fun hpast => ?_
  have hnone : noise = [] → past = [] := by
    intro hnil
    rw [← List.length_eq_zero_iff] at hnil ⊢
    exact hpast.trans (hwidth (hnoise.symm.trans hnil))
  have hrows := Open.mapM_known fun (line : (ℕ × List α) × ℕ)
    (_ : line ∈ (noise.zip coefficients.2).zipIdx) known =>
    hopen.addCombination known (name ++ "_AR1[" ++ toString line.2 ++ "]") line.1.1 past line.1.2
  refine Triple.bind (hrows.conseq (fun _ hm => hm) (fun _ _ hm => hm) fun _ hm => hm.1) fun ids =>
    ?_
  refine Triple.bind (Q := fun _ m => I m ∧ m.noise = []) (fun m hm => ?_) fun _ => ?_
  · refine ⟨fun _ m' hrun => ?_, fun e m' hrun => ?_⟩
    · obtain rfl := (Prod.mk.inj hrun).2
      exact ⟨h.assign (.block ids samples) hm.1.1 hm.1.2.2.symm hm.2, hm.1.2.1⟩
    · cases hrun
  · exact Triple.bind (Triple.modify fun m hm => h.noise m noise past _ hm.2 hnone hm.1) fun _ =>
      Triple.pure fun _ hm => hm

omit [Numeral α] in
theorem setSenseFrom (d : Datum α) : Keeps I (setSenseFrom d) := by
  unfold Stage.setSenseFrom
  split
  · exact h.sense _
  · exact .throw

/-- Whatever a call does, it keeps the property if setting probabilities does. -/
theorem run (step : BuildStep α) (hprobability : ∀ d,
      step = .probability d → Keeps I (setProbability d)) :
    Keeps I step.run := by
  cases step with
  | column r => exact (h.addVariable r).bind fun _ => .pure
  | columns axes r => exact (h.addFamily axes r).bind fun _ => .pure
  | state r initial => exact (h.addStateVariable r initial).bind fun _ => .pure
  | states axes r initial => exact (h.addStateFamily axes r initial).bind fun _ => .pure
  | row c name uncertainty => exact (h.addConstraint c name uncertainty).bind fun _ => .pure
  | rows cs name uncertainty => exact (h.addConstraints cs name uncertainty).bind fun _ => .pure
  | noise innovations coefficients name =>
    exact (h.addLaggedNoise innovations coefficients name).bind fun _ => .pure
  | objective terms constant => exact h.objective terms constant
  | sense d => exact h.setSenseFrom d
  | probability d => exact hprobability d rfl

end Lasting

/-! ### Probabilities -/

/-- Probabilities that are accepted are as many as there are scenarios, none is below zero, and they
add up to one. -/
theorem setProbability_triple {I : Stage α → Prop} {Q : Stage α → Prop} (d : Datum α)
    (hset : ∀ m p, I m → p.length = m.sampleCount → (∀ x ∈ p, ¬x < 0) → sumsToOne p = true →
      Q { m with probability := some p }) :
    Triple I (setProbability d) (fun _ => Q) I := by
  unfold setProbability
  split
  · exact Triple.throw fun _ hm => hm
  next items _ =>
  refine Triple.bind (Q := fun _ => I) (Triple.ofExcept (fun _ _ hm _ => hm) fun _ hm => hm)
    fun p => ?_
  refine Triple.get_bind fun m hm => ?_
  dsimp only
  by_cases hlength : p.length ≠ m.sampleCount
  · rw [if_pos hlength]
    exact Triple.throw_bind fun _ hs => hs ▸ hm
  rw [if_neg hlength]
  by_cases hsum : (p.any (fun x => decide (x < 0)) || !sumsToOne p) = true
  · rw [if_pos hsum]
    exact Triple.throw_bind fun _ hs => hs ▸ hm
  rw [if_neg hsum]
  simp only [Bool.or_eq_true, not_or, Bool.not_eq_true, List.any_eq_false, decide_eq_true_eq,
    Bool.not_eq_false'] at hsum
  refine Triple.modify fun s hs => ?_
  rw [hs]
  exact hset m p hm (not_not.mp hlength) hsum.1 hsum.2

/-! ### Any number of calls -/

section Runs

variable {I : Stage α → Prop} {m : Stage α}

theorem Lasting.after (h : Lasting I)
    (hprobability : ∀ m p, I m → I { m with probability := some p })
    (step : BuildStep α) (hm : I m) : I (step.after m) := by
  have hset (d : Datum α) : Keeps I (setProbability d) :=
    setProbability_triple d fun m p hm _ _ _ => hprobability m p hm
  exact Keeps.iff_on.mp (h.run step fun d _ => hset d) m hm

theorem Lasting.build (h : Lasting I)
    (hprobability : ∀ m p, I m → I { m with probability := some p }) (steps : List (BuildStep α))
    (hm : I m) : I (build steps m) := by
  induction steps generalizing m with
  | nil => exact hm
  | cons step steps ih => exact ih (h.after hprobability step hm)

end Runs

end Recourse.Stage
