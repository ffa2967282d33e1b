import Recourse.Proofs.Coupling
import Recourse.Proofs.Stage.Attachment
import Recourse.Proofs.Stage.Joined

/-! What a model hands to the solver. Before each solve the right-hand sides that ever change are
all entered anew, and the rows of the cuts are brought in line with the pool. So the program can be
told from what comes in, from the scenario and from the stored cuts, whatever the model was used for
before. -/

namespace Recourse

open Run (Alike Coupled Keeps)

variable {α β γ : Type}

/-! ### Assignments -/

theorem Row.assign_append (as bs : List (ℕ × α)) (r : Row α) :
    (r.assign as).assign bs = r.assign (as ++ bs) := by
  rw [assign, assign, assign, rhsAfter_append]

theorem Row.map_assign_append (as bs : List (ℕ × α)) (rows : List (Row α)) :
    (rows.map (assign as)).map (assign bs) = rows.map (assign (as ++ bs)) := by
  rw [List.map_map]
  exact List.map_congr_left fun r _ => r.assign_append as bs

theorem Row.assign_of_not_mem {as : List (ℕ × α)} {r : Row α} (h : ∀ a ∈ as, a.1 ≠ r.id) :
    r.assign as = r := by
  rw [assign, rhsAfter_of_not_mem h]

/-- What is assigned to rows that are assigned to again later does not matter. -/
theorem Row.assign_forget {as incoming bs scenario : List (ℕ × α)}
    (has : ∀ a ∈ as, a.1 ∈ incoming.map (·.1) ∨ a.1 ∈ scenario.map (·.1))
    (hbs : ∀ b ∈ bs, b.1 ∈ scenario.map (·.1)) (r : Row α) :
    r.assign (as ++ incoming ++ bs ++ scenario) = r.assign (incoming ++ scenario) := by
  simp only [assign, rhsAfter_append]
  by_cases hscenario : r.id ∈ scenario.map (·.1)
  · rw [rhsAfter_congr hscenario]
  · have hne : ∀ b ∈ bs, b.1 ≠ r.id := fun b hb hid => hscenario (hid ▸ hbs b hb)
    rw [rhsAfter_of_not_mem hne]
    by_cases hincoming : r.id ∈ incoming.map (·.1)
    · rw [rhsAfter_congr hincoming]
    · have hne : ∀ a ∈ as, a.1 ≠ r.id := fun a ha hid => (has a ha).elim (hid ▸ hincoming)
          (hid ▸ hscenario)
      rw [rhsAfter_of_not_mem hne]

namespace Stage

variable {m M : Stage α} {r : Except (Fault α) β} {as bs : List (ℕ × α)}

def after (m : Stage α) (as : List (ℕ × α)) (status : Status) (solution : Option (Solution α)) :
    Stage α :=
  { m with rows := m.rows.map (Row.assign as), status, solution }

/-- On a model that has become of `m`, an operation gives an answer and assigns right-hand sides,
both of which can be told beforehand. -/
def Assigns (m : Stage α) (act : Edit α β) (r : Except (Fault α) β) (as : List (ℕ × α)) : Prop :=
  ∀ M : Stage α, M.bare = m.bare → ∃ status solution, act.on M = (r, M.after as status solution)

theorem after_after (m : Stage α) (as bs : List (ℕ × α)) (status status' : Status)
    (solution solution' : Option (Solution α)) :
    (m.after as status solution).after bs status' solution' = m.after
    (as ++ bs) status' solution' := by
  unfold after
  rw [Row.map_assign_append]

theorem after_nil (m : Stage α) : m.after [] m.status m.solution = m := by
  have hrows : m.rows.map (Row.assign []) = m.rows := List.map_id _
  rw [after, hrows]

namespace Assigns

theorem of_on {act : Edit α β} (h : ∀ M, M.bare = m.bare → act.on M = (r, M)) :
    m.Assigns act r [] := fun M hM =>
  ⟨M.status, M.solution, by rw [h M hM, M.after_nil]⟩

theorem pure {b : β} : m.Assigns (Pure.pure b) (.ok b) [] := of_on fun _ _ => rfl

theorem throw {e : Fault α} : m.Assigns (MonadExcept.throw e : Edit α β) (.error e) [] :=
  of_on fun _ _ => rfl

theorem ofExcept : m.Assigns (Run.ofExcept r) r [] := of_on fun _ _ => rfl

theorem bind_ok {x : Edit α β} {f : β → Edit α γ} {b : β} {c : Except (Fault α) γ}
    (hx : m.Assigns x (.ok b) as)
    (hf : m.Assigns (f b) c bs) : m.Assigns (x >>= f) c (as ++ bs) := by
  intro M hM
  obtain ⟨status, solution, hx⟩ := hx M hM
  obtain ⟨status', solution', hf⟩ := hf (M.after as status solution) hM
  exact ⟨status', solution', by rw [Run.bind_ok f hx, hf, after_after]⟩

theorem bind_error {x : Edit α β} {f : β → Edit α γ} {e : Fault α}
    (hx : m.Assigns x (.error e) as) :
    m.Assigns (x >>= f) (.error e) as := by
  intro M hM
  obtain ⟨status, solution, hx⟩ := hx M hM
  exact ⟨status, solution, Run.bind_error f hx⟩

theorem get_bind {f : Stage α → Edit α γ} {c : Except (Fault α) γ} (hf : m.Assigns (f m) c as)
    (h : ∀ M, M.bare = m.bare → f M = f m) : m.Assigns (get >>= f) c as := by
  intro M hM
  rw [Run.bind_ok f (Run.get_on M), h M hM]
  exact hf M hM

theorem putRhs (a : ℕ × α) : m.Assigns (Stage.putRhs a.1 a.2) (.ok ()) [a] := by
  refine fun M _ => ⟨.pending, none, ?_⟩
  have hrow (r : Row α) : (if r.id = a.1 then { r with rhs := a.2 } else r) = r.assign [a] := by
    by_cases hid : r.id = a.1
    · simp [Row.assign, rhsAfter, hid]
    · simp [Row.assign, rhsAfter, hid, Ne.symm hid]
  simp [Run.on, Stage.putRhs, Stage.discard, after, hrow]

theorem putAll (as : List (ℕ × α)) : m.Assigns (as.forM fun a => Stage.putRhs a.1 a.2)
    (.ok ()) as := by
  induction as with
  | nil => exact pure
  | cons a as ih => exact bind_ok (putRhs a) ih

end Assigns

/-- An operation that assigns to some of the given rows and, if it succeeds, puts given right-hand
sides in place, one for each of the rows. -/
def Enters (m : Stage α) (act : Edit α Unit) (ids : List ℕ) (as : List (ℕ × α)) : Prop :=
  ∃ r bs, m.Assigns act r bs ∧ (∀ b ∈ bs, b.1 ∈ ids) ∧ (r = .ok () → bs = as ∧ as.map (·.1) = ids)

namespace Enters

theorem of_error {act : Edit α Unit} {ids : List ℕ} {e : Fault α}
    (h : m.Assigns act (.error e) []) :
    m.Enters act ids as := ⟨_, [], h, by simp, fun h => by cases h⟩

theorem get_bind {f : Stage α → Edit α Unit} {ids : List ℕ} (h : ∀ M, M.bare = m.bare → f M = f m)
    (hf : m.Enters (f m) ids as) : m.Enters (get >>= f) ids as := by
  obtain ⟨r, bs, hassigns, hids, hok⟩ := hf
  exact ⟨r, bs, hassigns.get_bind h, hids, hok⟩

theorem bind {x y : Edit α Unit} {ids ids' : List ℕ} (hx : m.Enters x ids as)
    (hy : m.Enters y ids' bs) :
    m.Enters (x >>= fun _ => y) (ids ++ ids') (as ++ bs) := by
  obtain ⟨r, as', hx, hids, has⟩ := hx
  obtain ⟨r', bs', hy, hids', hbs⟩ := hy
  rcases r with e | _
  · exact ⟨_, as', hx.bind_error,
      fun a ha => List.mem_append_left _ (hids a ha), fun h => by cases h⟩
  · obtain ⟨rfl, has⟩ := has rfl
    refine ⟨r', as' ++ bs', hx.bind_ok hy, fun a ha => ?_, fun h => ?_⟩
    · rcases List.mem_append.mp ha with ha | ha
      · exact List.mem_append_left _ (hids a ha)
      · exact List.mem_append_right _ (hids' a ha)
    · obtain ⟨rfl, hbs⟩ := hbs h
      exact ⟨rfl, by rw [List.map_append, has, hbs]⟩

end Enters

end Stage

/-! ### What a call enters -/

def RandomRhs.entries (k : ℤ) : RandomRhs α → List (ℕ × α)
  | .single row samples => ((entryFrom samples k : Except (Fault α) α).toOption.map
      fun x => (row, x)).toList
  | .block rows samples => rows.zip
      ((entryFrom samples k : Except (Fault α) (List α)).toOption.getD [])

abbrev Arrival (α : Type) := Option (List α × Option (List α))

namespace Stage

def randomRows (m : Stage α) : List ℕ := m.random.flatMap RandomRhs.rows

def linkRows (m : Stage α) : List ℕ := m.links ++ m.noiseLinks

def arrived (m : Stage α) : Arrival α → List (ℕ × α)
  | none => []
  | some (state, noise) => m.links.zip state ++ m.noiseLinks.zip (noise.getD [])

variable [Scalar α] {m M : Stage α}

def sampled (m : Stage α) (d : Datum α) : List (ℕ × α) :=
  m.random.flatMap (RandomRhs.entries (d.asWhole.toOption.getD 0))

theorem setRhs_enters (row : ℕ) (x : α) : m.Enters (setRhs row x) [row] [(row, x)] := by
  unfold setRhs
  split_ifs
  · exact .of_error (Assigns.bind_error .throw)
  · exact ⟨_, _, Assigns.putRhs (row, x), by simp, fun _ => ⟨rfl, rfl⟩⟩

theorem setRhsAll_enters (rows : List ℕ) (xs : List α) :
    m.Enters (setRhsAll rows xs) rows (rows.zip xs) := by
  unfold setRhsAll
  split_ifs with h
  · exact .of_error (Assigns.bind_error .throw)
  · have hlength : rows.length = xs.length := by
      by_contra hne
      simp [hne] at h
    exact ⟨_, _, Assigns.putAll (rows.zip xs), fun a ha => (List.of_mem_zip ha).1,
      fun _ => ⟨rfl, List.map_fst_zip hlength.le⟩⟩

theorem enterSample_enters (k : ℤ) (e : RandomRhs α) :
    m.Enters (enterSample k e) e.rows (e.entries k) := by
  cases e with
  | single row samples =>
    rw [enterSample, RandomRhs.rows, RandomRhs.entries]
    rcases (entryFrom samples k : Except (Fault α) α) with e | x
    · exact .of_error (Assigns.bind_error .ofExcept)
    · exact setRhs_enters row x
  | block rows samples =>
    rw [enterSample, RandomRhs.rows, RandomRhs.entries]
    rcases (entryFrom samples k : Except (Fault α) (List α)) with e | xs
    · exact .of_error (Assigns.bind_error .ofExcept)
    · exact setRhsAll_enters rows xs

theorem enterScenario_enters (m : Stage α) (d : Datum α) :
    m.Enters (enterScenario d) m.randomRows (m.sampled d) := by
  have hloop (es : List (RandomRhs α)) :
      m.Enters (es.forM fun e => do enterSample (← Run.ofExcept d.asWhole) e)
      (es.flatMap RandomRhs.rows)
        (es.flatMap (RandomRhs.entries (d.asWhole.toOption.getD 0))) := by
    induction es with
    | nil => exact ⟨_, _, .pure, by simp, fun _ => ⟨rfl, rfl⟩⟩
    | cons e es ih =>
      refine Enters.bind ?_ ih
      rcases d.asWhole with f | k
      · exact .of_error (Assigns.bind_error .ofExcept)
      · exact enterSample_enters k e
  refine .get_bind (fun M hM => ?_) (hloop m.random)
  have hrandom : M.random = m.random := (congrArg random hM :)
  rw [hrandom]

theorem enterIncoming_enters (m : Stage α) (state : List α) (noise : Option (List α)) :
    m.Enters (enterIncoming state noise) m.linkRows (m.arrived (some (state, noise))) := by
  have hnoise : m.Enters
      (if !m.noiseLinks.isEmpty then noise.elim (throw (.kind .number)) (setRhsAll m.noiseLinks)
      else pure ())
      m.noiseLinks (m.noiseLinks.zip (noise.getD [])) := by
    rcases hlinks : m.noiseLinks with _ | ⟨id, ids⟩
    · exact ⟨_, _, .pure, by simp, fun _ => ⟨rfl, rfl⟩⟩
    · cases noise with
      | none => exact .of_error .throw
      | some noise => exact setRhsAll_enters _ noise
  refine .get_bind (fun M hM => ?_) ?_
  · have hlinks : M.links = m.links := (congrArg links hM :)
    have hnoiseLinks : M.noiseLinks = m.noiseLinks := (congrArg noiseLinks hM :)
    rw [hlinks, hnoiseLinks]
  rw [linkRows, arrived]
  cases noise <;> rcases hlinks : m.links with _ | ⟨id, ids⟩
  exacts [hnoise, (setRhsAll_enters _ state).bind hnoise, hnoise,
    (setRhsAll_enters _ state).bind hnoise]

/-! ### Between solves -/

/-- A model as it comes out of preparation: its rows are among those that were added, and no cut has
arrived. -/
structure Settled (m : Stage α) : Prop where
  rows : ∀ r ∈ m.rows, r.id < m.issued
  random : ∀ id ∈ m.randomRows, id < m.issued
  links : ∀ id ∈ m.linkRows, id < m.issued
  fresh : ∀ ctg, m.costToGo = some ctg → ctg.attached = [] ∧ ctg.version = 0 ∧ ctg.pool.cuts = []

variable [Numeral α] {as bs : List (ℕ × α)} {rows : List (Row α)} {arrival : Arrival α}

/-- A model that has become of `m` by solving it, however often and with whatever came in. -/
def Kept (m M : Stage α) : Prop :=
  ∃ as rows, (∀ a ∈ as, a.1 ∈ m.linkRows ∨ a.1 ∈ m.randomRows) ∧
    m.Bears (m.rows.map (Row.assign as)) rows M

/-- A model into which the given values came last. Whatever was there before was at rows that are
set again. -/
def Entered (m : Stage α) (arrival : Arrival α) (M : Stage α) : Prop :=
  ∃ as bs rows, (∀ a ∈ as, a.1 ∈ (m.arrived arrival).map (·.1) ∨ a.1 ∈ m.randomRows) ∧
    (∀ b ∈ bs, b.1 ∈ m.randomRows) ∧ m.Bears
    (m.rows.map (Row.assign (as ++ m.arrived arrival ++ bs))) rows M

theorem Kept.frame (h : m.Kept M) : M.bare = m.bare := by
  obtain ⟨as, rows, -, hM⟩ := h
  exact hM.frame

theorem Settled.kept (h : m.Settled) : m.Kept m := by
  have hrows : m.rows.map (Row.assign []) = m.rows := List.map_id _
  refine ⟨[], [], by simp, rfl, le_rfl, by rw [hrows, List.append_nil],
    fun _ => rfl, fun ctg hctg => ?_⟩
  obtain ⟨hattached, hversion, hcuts⟩ := h.fresh ctg hctg
  exact
    { numbered := ⟨by simp [hcuts], by simp [hcuts], by simp [hcuts]⟩
      rows := by rw [hattached]; exact .nil
      growing := by simp [hattached]
      pending := by simp [hcuts]
      version := by simp [hversion]
      current := fun _ => by rw [hattached, hcuts]; rfl }

/-- Assigning to rows of the model as it was built leaves the rows of cuts alone. -/
theorem Bears.after (h : m.Bears (m.rows.map (Row.assign as)) rows M)
    (hbs : ∀ b ∈ bs, b.1 < m.issued) (status : Status) (solution : Option (Solution α)) :
    m.Bears (m.rows.map (Row.assign (as ++ bs))) rows (M.after bs status solution) where
  frame := h.frame
  issued := h.issued
  rows := by
    have hcuts : rows.map (Row.assign bs) = rows := by
      refine (List.map_congr_left fun r hr => Row.assign_of_not_mem fun b hb hid => ?_).trans
        (List.map_id _)
      rcases hctg : M.costToGo with _ | ctg
      · rw [h.none hctg] at hr
        cases hr
      · have h1 := (h.some ctg hctg).fresh hr
        have h2 := hbs b hb
        omega
    rw [Stage.after, h.rows, List.map_append, hcuts, Row.map_assign_append]
  none := h.none
  some := h.some

omit [Scalar α] [Numeral α] in
theorem Bears.base_lt (hm : m.Settled) : ∀ r ∈ m.rows.map (Row.assign as), r.id < m.issued := by
  intro r hr
  obtain ⟨r₀, hr₀, rfl⟩ := List.mem_map.mp hr
  exact hm.rows r₀ hr₀

/-- What an operation that enters right-hand sides answers can be told beforehand. -/
theorem Enters.on {act : Edit α Unit} {ids : List ℕ} {cs : List (ℕ × α)}
    (hact : m.Enters act ids cs) (hids : ∀ id ∈ ids, id < m.issued)
    (h : m.Bears (m.rows.map (Row.assign as)) rows M) :
    ∃ M' bs, act.on M = ((act.on m).1, M') ∧ M'.costToGo = M.costToGo ∧ (∀ b ∈ bs, b.1 ∈ ids) ∧
      m.Bears (m.rows.map (Row.assign (as ++ bs))) rows M' ∧
      ((act.on m).1 = .ok () → bs = cs ∧ cs.map (·.1) = ids) := by
  obtain ⟨r, bs, hassigns, hbs, hok⟩ := hact
  obtain ⟨status, solution, hrun⟩ := hassigns M h.frame
  obtain ⟨status', solution', hrun'⟩ := hassigns m rfl
  have hr : (act.on m).1 = r := by rw [hrun']
  rw [hr]
  exact ⟨_, bs, hrun, rfl, hbs, h.after (fun b hb => hids b.1 (hbs b hb)) status solution, hok⟩

omit [Scalar α] [Numeral α] in
theorem arrived_mem {a : ℕ × α} (h : a ∈ m.arrived arrival) : a.1 ∈ m.linkRows := by
  rcases arrival with _ | ⟨state, noise⟩
  · cases h
  · exact List.mem_append.mpr ((List.mem_append.mp h).imp (fun h => (List.of_mem_zip h).1)
      fun h => (List.of_mem_zip h).1)

theorem Entered.kept (h : m.Entered arrival M) : m.Kept M := by
  obtain ⟨as, bs, rows, has, hbs, hM⟩ := h
  refine ⟨_, rows, fun a ha => ?_, hM⟩
  rcases List.mem_append.mp ha with ha | ha
  · rcases List.mem_append.mp ha with ha | ha
    · refine (has a ha).imp_left fun ha => ?_
      obtain ⟨b, hb, hab⟩ := List.mem_map.mp ha
      exact hab ▸ arrived_mem hb
    · exact .inl (arrived_mem ha)
  · exact .inr (hbs a ha)

theorem Kept.unlinked (h : m.Kept M) (hlinks : m.linkRows = []) : m.Entered none M := by
  obtain ⟨as, rows, has, hM⟩ := h
  refine ⟨as, [], rows, fun a ha => .inr ((has a ha).resolve_left (by simp [hlinks])), by simp, ?_⟩
  simpa [arrived] using hM

theorem Kept.enterIncoming (h : m.Kept M) (hm : m.Settled) (state : List α)
    (noise : Option (List α)) :
    ∃ M', (Stage.enterIncoming state noise).on M =
      (((Stage.enterIncoming state noise).on m).1, M') ∧
      M'.pool? = M.pool? ∧ m.Kept M' ∧
      (((Stage.enterIncoming state noise).on m).1 = .ok () →
        m.Entered (some (state, noise)) M') := by
  obtain ⟨as, rows, has, hM⟩ := h
  obtain ⟨M', bs, hrun, hctg, hbs, hM', hok⟩ := (enterIncoming_enters m state noise).on hm.links hM
  refine ⟨M', hrun, by rw [pool?, pool?, hctg], ⟨_, rows, fun a ha => ?_, hM'⟩, fun hr => ?_⟩
  · exact (List.mem_append.mp ha).elim (has a) fun ha => .inl (hbs a ha)
  · obtain ⟨rfl, hids⟩ := hok hr
    refine ⟨as, [], rows, fun a ha => (has a ha).imp_left fun ha => hids ▸ ha, by simp, ?_⟩
    rwa [List.append_nil]

theorem Entered.enterScenario (h : m.Entered arrival M) (hm : m.Settled) (d : Datum α) :
    ∃ M', (Stage.enterScenario d).on M = (((Stage.enterScenario d).on m).1, M') ∧
      M'.pool? = M.pool? ∧
      m.Entered arrival M' ∧
      (((Stage.enterScenario d).on m).1 = .ok () →
        ∃ rows, m.Bears (m.rows.map (Row.assign (m.arrived arrival ++ m.sampled d))) rows M') := by
  obtain ⟨as, bs, rows, has, hbs, hM⟩ := h
  obtain ⟨M', cs, hrun, hctg, hcs, hM', hok⟩ := (enterScenario_enters m d).on hm.random hM
  refine ⟨M', hrun, by rw [pool?, pool?, hctg], ⟨as, bs ++ cs, rows, has, fun b hb => ?_, ?_⟩,
    fun hr => ⟨rows, ?_⟩⟩
  · exact (List.mem_append.mp hb).elim (hbs b) (hcs b)
  · rwa [← List.append_assoc]
  · obtain ⟨rfl, hids⟩ := hok hr
    have hforget : m.rows.map (Row.assign (as ++ m.arrived arrival ++ bs ++ m.sampled d)) =
        m.rows.map (Row.assign (m.arrived arrival ++ m.sampled d)) :=
      List.map_congr_left fun r _ =>
        Row.assign_forget (fun a ha => (has a ha).imp_right fun ha => hids ▸ ha)
        (fun b hb => hids ▸ hbs b hb) r
    rwa [hforget] at hM'

theorem Entered.attach (h : m.Entered arrival M) (hm : m.Settled) :
    ∃ M', Stage.attach.on M = (M.cuts.forM (m.checkRow m.lagged), M') ∧ M'.pool? = M.pool? ∧
      m.Entered arrival M' := by
  obtain ⟨as, bs, rows, has, hbs, hM⟩ := h
  obtain ⟨M', rows', hrun, hM', hpool, -⟩ := attach_spec (Bears.base_lt hm) hM
  exact ⟨M', hrun, hpool, as, bs, rows', has, hbs, hM'⟩

theorem Entered.withSolution (h : m.Entered arrival M) (status : Status)
    (solution : Option (Solution α)) :
    m.Entered arrival { M with status, solution } := by
  obtain ⟨as, bs, rows, has, hbs, hM⟩ := h
  exact ⟨as, bs, rows, has, hbs, hM.frame, hM.issued, hM.rows, hM.none, hM.some⟩

end Stage

/-! ### The program -/

def Program.anonymous (Q : Program α) : Program α :=
  { Q with rows := Q.rows.map fun r => { r with id := 0 } }

/-- Points are feasible whatever the rows are called. -/
theorem Program.feasible_of_anonymous [Scalar α] {Q Q' : Program α} (h : Q.anonymous = Q'.anonymous)
    {y : List α} (hy : Q.Feasible y) : Q'.Feasible y := by
  have hcolumns : Q.columns = Q'.columns := (congrArg Program.columns h :)
  have hrows : Q.rows.map (fun r : Row α => { r with id := 0 }) = Q'.rows.map
      fun r : Row α => { r with id := 0 } :=
    (congrArg Program.rows h :)
  refine ⟨hcolumns ▸ hy.1, hcolumns ▸ hy.2.1, fun r hr => ?_⟩
  have hmem : ({ r with id := 0 } : Row α) ∈ Q.rows.map fun r : Row α => { r with id := 0 } :=
    hrows ▸ List.mem_map_of_mem hr
  obtain ⟨r', hr', heq⟩ := List.mem_map.mp hmem
  have hholds : ({ r with id := 0 } : Row α).Holds y :=
    heq ▸ (hy.2.2 r' hr' : ({ r' with id := 0 } : Row α).Holds y)
  exact hholds

/-- A solver that does not go by the identifiers of rows. -/
def Solver.Blind (lp : Solver α) : Prop :=
  ∀ Q Q' : Program α, Q.anonymous = Q'.anonymous → lp Q = lp Q'

namespace Run

variable {σ τ : Type} {act : Solver α → Run α σ β} {s s' : σ} {Q : Program α}

/-- From a state, an operation hands no program but `Q` to its solver: what becomes of it depends on
the verdict on `Q` only. -/
def Asks (act : Solver α → Run α σ β) (s : σ) (Q : Program α) : Prop :=
  ∀ lp lp' : Solver α, lp Q = lp' Q → (act lp).on s = (act lp').on s

namespace Asks

theorem bind (h : Asks act s Q) (f : β → Run α σ γ) : Asks (fun lp => act lp >>= f) s Q := by
  intro lp lp' hlp
  have hact := h lp lp' hlp
  rcases hrun : (act lp').on s with ⟨e | b, t⟩
  · rw [Run.bind_error f hrun, Run.bind_error f (hact.trans hrun)]
  · rw [Run.bind_ok f hrun, Run.bind_ok f (hact.trans hrun)]

end Asks

end Run

namespace Stage

variable [Scalar α] {m M M' : Stage α} {as bs : List (ℕ × α)} {rows : List (Row α)}
  {arrival : Arrival α}
  {lp : Solver α}

/-- The program for what comes in, a scenario and some cuts. The rows of the cuts have no
identifiers of their own. -/
def request (m : Stage α) (arrival : Arrival α) (d : Datum α) (cuts : List (Cut α)) : Program α :=
  { m.program with
    rows := m.rows.map (Row.assign (m.arrived arrival ++ m.sampled d)) ++
      cuts.map (m.cutRow m.lagged 0) }

variable [Numeral α]

theorem Bears.program_eq {base : List (Row α)} {cuts : List (Cut α)} (h : m.Bears base rows M)
    (hrows : m.HasRows cuts rows) : M.program.anonymous =
      Program.anonymous { m.program with rows := base ++ cuts.map (m.cutRow m.lagged 0) } := by
  have hcuts : rows.map (fun r : Row α => { r with id := 0 }) =
      (cuts.map (m.cutRow m.lagged 0)).map fun r : Row α => { r with id := 0 } := by
    clear h
    induction hrows with
    | nil => rfl
    | cons hr _ ih =>
      exact congrArg₂ List.cons (congrArg (fun r : Row α => { r with id := 0 }) hr :) ih
  have hframe : M.program = { m.program with rows := M.rows } :=
    (congrArg (fun M' : Stage α => { M'.program with rows := M.rows }) h.frame :)
  rw [hframe, h.rows]
  simp only [Program.anonymous, List.map_append, hcuts]

/-- Whether everything is in place for a solve: the scenario is one of the model, and all cuts
fit. -/
def ready (m : Stage α) (d : Datum α) (cuts : List (Cut α)) : Except (Fault α) Unit := do
  ((enterScenario d).on m).1
  cuts.forM (m.checkRow m.lagged)

theorem Entered.present (h : m.Entered arrival M) (hm : m.Settled) (d : Datum α) :
    ∃ M', (Stage.enterScenario d >>= fun _ => Stage.attach).on M = (m.ready d M.cuts, M') ∧
      M'.pool? = M.pool? ∧
      m.Entered arrival M' ∧
      (m.ready d M.cuts = .ok () →
        M'.program.anonymous = (m.request arrival d M.cuts).anonymous) := by
  obtain ⟨M₁, hrun, hpool, hM₁, hok⟩ := h.enterScenario hm d
  have hcuts : M₁.cuts = M.cuts := by rw [cuts, cuts, hpool]
  rw [ready]
  rcases hr : ((Stage.enterScenario d).on m).1 with e | _
  · rw [hr] at hrun
    exact ⟨M₁, Run.bind_error _ hrun, hpool, hM₁, fun h => by cases h⟩
  · rw [hr] at hrun
    obtain ⟨rows, hbears⟩ := hok hr
    obtain ⟨M₂, rows', hattach, hM₂, hpool', hrows⟩ := attach_spec (Bears.base_lt hm) hbears
    obtain ⟨M₂', hattach', -, hentered⟩ := hM₁.attach hm
    obtain rfl : M₂ = M₂' := congrArg Prod.snd (hattach.symm.trans hattach')
    rw [hcuts] at hattach hrows
    refine ⟨M₂, (Run.bind_ok _ hrun).trans hattach, hpool'.trans hpool, hentered, fun hr => ?_⟩
    exact hM₂.program_eq (hrows hr)

/-! ### Solving -/

omit [Scalar α] [Numeral α] in
private theorem lookup_zip_append {ids more : List ℕ} {ds : List α} {id : ℕ} (hid : id ∉ more) :
    ((ids ++ more).zip ds).lookup id = (ids.zip ds).lookup id := by
  induction ids generalizing ds with
  | nil =>
    refine List.lookup_eq_none_iff.mpr fun a ha => ?_
    have hmem : a.1 ∈ more := (List.of_mem_zip (show (a.1, a.2) ∈ _ from ha)).1
    simpa using fun h : id = a.1 => hid (h ▸ hmem)
  | cons k ids ih =>
    cases ds with
    | nil => rfl
    | cons d ds =>
      simp only [List.cons_append, List.zip_cons_cons, List.lookup_cons, ih]

/-- Two solutions alike: the same optimum, priced at the rows of the model as it was built. -/
structure SolvedAlike (m : Stage α) (x x' : Solution α) : Prop where
  point : x.point = x'.point
  value : x.value = x'.value
  price : ∀ id < m.issued, x.price id = x'.price id

theorem Entered.optimize (h : m.Entered arrival M) (v : Verdict α) (phase : String) (d : Datum α) :
    Alike m.SolvedAlike ((Stage.optimize (fun _ => v) phase d).on M).1
      ((Stage.optimize (fun _ => v) phase d).on m).1 := by
  obtain ⟨as, bs, rows, -, -, hM⟩ := h
  have hfailure : M.failure phase d v = m.failure phase d v :=
    (congrArg (fun M => Stage.failure M phase d v) hM.frame :)
  have hids : M.rows.map (·.id) = m.rows.map (·.id) ++ rows.map (·.id) := by
    rw [hM.rows, List.map_append, List.map_map]
    rfl
  have hfresh : ∀ id < m.issued, id ∉ rows.map (·.id) := by
    intro id hid hmem
    obtain ⟨r, hr, rfl⟩ := List.mem_map.mp hmem
    rcases hctg : M.costToGo with _ | ctg
    · rw [hM.none hctg] at hr
      cases hr
    · have := (hM.some ctg hctg).fresh hr
      omega
  have herror (e : Fault α) (he : M.failure phase d v = e) :
      Alike m.SolvedAlike (.error e) (.error (m.failure phase d v)) := by
    rw [← he, hfailure]
    exact .error _
  rcases v with o | _ | _ | _
  · refine .ok ⟨rfl, rfl, fun id hid => ?_⟩
    change (((M.rows.map (·.id)).zip o.duals).lookup id).getD 0 =
      (((m.rows.map (·.id)).zip o.duals).lookup id).getD 0
    rw [hids, lookup_zip_append (hfresh id hid)]
  all_goals exact herror _ rfl

/-- A model and its twin: both have a property, and their pools are the same. -/
structure Twin (I : Stage α → Prop) (M M' : Stage α) : Prop where
  left : I M
  right : I M'
  pool : M.pool? = M'.pool?

/-- Solve for a scenario. A failure is told under a name of its own for the scenario. -/
def solveFor (d name : Datum α) (phase : String) (lp : Solver α) : Edit α (Solution α) :=
  Stage.enterScenario d >>= fun _ => Stage.solve lp phase name

/-- Where everything is in place, solving hands over the program that was requested. -/
theorem Entered.solveFor (h : m.Entered arrival M) (hm : m.Settled) (d name : Datum α)
    (phase : String) :
    ∃ M', M'.pool? = M.pool? ∧ m.Entered arrival M' ∧
      ((∃ e, m.ready d M.cuts = .error e ∧ ∀ lp,
        (Stage.solveFor d name phase lp).on M = (.error e, M')) ∨
        M'.program.anonymous = (m.request arrival d M.cuts).anonymous ∧ m.ready d M.cuts = .ok () ∧
          ∀ lp, (Stage.solveFor d name phase lp).on M = (Stage.optimize lp phase name).on M') := by
  obtain ⟨M', hrun, hpool, hM', hprogram⟩ := h.present hm d
  have hsolve (lp : Solver α) : Stage.solveFor d name phase lp =
      (Stage.enterScenario d >>= fun _ => Stage.attach) >>= fun _ => Stage.optimize lp phase name :=
    (bind_assoc _ _ _).symm
  refine ⟨M', hpool, hM', ?_⟩
  rcases hr : m.ready d M.cuts with e | _
  · rw [hr] at hrun
    exact .inl ⟨e, rfl, fun lp => by rw [hsolve, Run.bind_error _ hrun]⟩
  · rw [hr] at hrun
    exact .inr ⟨hprogram hr, rfl, fun lp => by rw [hsolve, Run.bind_ok _ hrun]⟩

theorem solveFor_asks (h : m.Entered arrival M) (hm : m.Settled) (d name : Datum α)
    (phase : String) :
    ∃ Q, Q.anonymous = (m.request arrival d M.cuts).anonymous ∧
      Run.Asks (Stage.solveFor d name phase) M Q := by
  obtain ⟨M', -, -, ⟨e, -, hrun⟩ | ⟨hprogram, -, hrun⟩⟩ := h.solveFor hm d name phase
  · exact ⟨_, rfl, fun lp lp' _ => by rw [hrun, hrun]⟩
  · refine ⟨M'.program, hprogram, fun lp lp' hlp => ?_⟩
    rw [hrun, hrun]
    simp only [Run.on, Stage.optimize, hlp]

theorem solveFor_keeps (hm : m.Settled) (d name : Datum α) (phase : String) (lp : Solver α)
    (pool : Option (Pool α)) :
    Keeps (fun M => m.Entered arrival M ∧ M.pool? = pool) (Stage.solveFor d name phase lp) := by
  refine Keeps.iff_on.mpr fun M hM => ?_
  obtain ⟨M', hpool, hM', ⟨e, -, hrun⟩ | ⟨-, -, hrun⟩⟩ := hM.1.solveFor hm d name phase
  · rw [hrun]
    exact ⟨hM', hpool.trans hM.2⟩
  · rw [hrun]
    simp only [Run.on, Stage.optimize]
    split
    · exact ⟨hM'.withSolution _ _, hpool.trans hM.2⟩
    · exact ⟨hM'.withSolution _ _, hpool.trans hM.2⟩

theorem solveFor_coupled (hm : m.Settled) (hlp : lp.Blind) (d name : Datum α) (phase : String) :
    Coupled (Twin (m.Entered arrival)) (Stage.solveFor d name phase lp)
      (Stage.solveFor d name phase lp)
      m.SolvedAlike := by
  intro M N h
  have hcuts : N.cuts = M.cuts := by rw [cuts, cuts, h.pool]
  obtain ⟨hleft, hpool⟩ := Keeps.iff_on.mp (solveFor_keeps hm d name phase lp M.pool?) M
    ⟨h.left, rfl⟩
  obtain ⟨hright, hpool'⟩ := Keeps.iff_on.mp (solveFor_keeps hm d name phase lp N.pool?) N
    ⟨h.right, rfl⟩
  refine ⟨?_, hleft, hright, by rw [hpool, hpool', h.pool]⟩
  obtain ⟨M', -, hM', hM⟩ := h.left.solveFor hm d name phase
  obtain ⟨N', -, hN', hN⟩ := h.right.solveFor hm d name phase
  rw [hcuts] at hN
  rcases hM with ⟨e, hready, hrun⟩ | ⟨hprogram, hready, hrun⟩ <;>
    rcases hN with ⟨e', hready', hrun'⟩ | ⟨hprogram', hready', hrun'⟩ <;>
    rw [hready] at hready' <;> cases hready'
  · rw [hrun, hrun']
    exact .error e
  · rw [hrun, hrun']
    have hverdict : lp M'.program = lp N'.program := hlp _ _ (hprogram.trans hprogram'.symm)
    have hM := hM'.optimize (lp M'.program) phase name
    have hN := hN'.optimize (lp M'.program) phase name
    change Alike _ ((Stage.optimize (fun _ => lp M'.program) phase name).on M').1
      ((Stage.optimize (fun _ => lp N'.program) phase name).on N').1
    rw [← hverdict]
    exact hM.trans hN.symm fun x y z h h' =>
      ⟨h.point.trans h'.point.symm, h.value.trans h'.value.symm,
        fun id hid => (h.price id hid).trans (h'.price id hid).symm⟩

/-! ### Before and after -/

def enterArrival : Arrival α → Edit α Unit
  | none => pure ()
  | some (state, noise) => Stage.enterIncoming state noise

theorem Kept.enterArrival (h : m.Kept M) (hm : m.Settled)
    (harrival : arrival = none → m.linkRows = []) :
    ∃ M', (Stage.enterArrival arrival).on M = (((Stage.enterArrival arrival).on m).1, M') ∧
      M'.pool? = M.pool? ∧
      m.Kept M' ∧ (((Stage.enterArrival arrival).on m).1 = .ok () → m.Entered arrival M') := by
  rcases arrival with _ | ⟨state, noise⟩
  · exact ⟨M, rfl, rfl, h, fun _ => h.unlinked (harrival rfl)⟩
  · exact h.enterIncoming hm state noise

theorem enterArrival_keeps {pool : Option (Pool α)} (hm : m.Settled)
    (harrival : arrival = none → m.linkRows = []) {f : Edit α β}
    (hf : Keeps (fun M => m.Entered arrival M ∧ M.pool? = pool) f) :
    Keeps (fun M => m.Kept M ∧ M.pool? = pool) (enterArrival arrival >>= fun _ => f) := by
  refine Keeps.iff_on.mpr fun M hM => ?_
  obtain ⟨M', hrun, hpool, hM', hok⟩ := hM.1.enterArrival hm harrival
  rcases hr : ((Stage.enterArrival arrival).on m).1 with e | _
  · rw [hr] at hrun
    rw [Run.bind_error _ hrun]
    exact ⟨hM', hpool.trans hM.2⟩
  · rw [hr] at hrun
    rw [Run.bind_ok _ hrun]
    have h := Keeps.iff_on.mp hf M' ⟨hok hr, hpool.trans hM.2⟩
    exact ⟨h.1.kept, h.2⟩

theorem enterArrival_coupled {A : β → γ → Prop} (hm : m.Settled)
    (harrival : arrival = none → m.linkRows = []) {f : Edit α β} {f' : Edit α γ}
    (hf : Coupled (Twin (m.Entered arrival)) f f' A) :
    Coupled (Twin m.Kept) (enterArrival arrival >>= fun _ => f)
      (enterArrival arrival >>= fun _ => f') A := by
  intro M N h
  obtain ⟨M', hrun, hpool, hM', hok⟩ := h.left.enterArrival hm harrival
  obtain ⟨N', hrun', hpool', hN', hok'⟩ := h.right.enterArrival hm harrival
  have hpools : M'.pool? = N'.pool? := by rw [hpool, hpool', h.pool]
  rcases hr : ((Stage.enterArrival arrival).on m).1 with e | _
  · rw [hr] at hrun hrun'
    rw [Run.bind_error _ hrun, Run.bind_error _ hrun']
    exact ⟨.error e, hM', hN', hpools⟩
  · rw [hr] at hrun hrun'
    rw [Run.bind_ok _ hrun, Run.bind_ok _ hrun']
    obtain ⟨hA, hleft, hright, hpools⟩ := hf M' N' ⟨hok hr, hok' hr, hpools⟩
    exact ⟨hA, hleft.kept, hright.kept, hpools⟩

theorem solveScenario_eq (lp : Solver α) (k : ℕ) : Stage.solveScenario lp k =
    solveFor (.int k) (.int k) "backward" lp >>= fun x => do
      let s ← get
      return (x.value, (s.links ++ s.noiseLinks).map x.price) := (bind_assoc _ _ _).symm

theorem solveScenario_keeps (hm : m.Settled) (k : ℕ) (lp : Solver α) (pool : Option (Pool α)) :
    Keeps (fun M => m.Entered arrival M ∧ M.pool? = pool) (Stage.solveScenario lp k) := by
  rw [solveScenario_eq]
  exact (solveFor_keeps hm _ _ _ lp pool).bind fun x => .get_bind fun s => .pure

theorem solveScenario_coupled (hm : m.Settled) (hlp : lp.Blind) (k : ℕ) :
    Coupled (Twin (m.Entered arrival)) (Stage.solveScenario lp k)
      (Stage.solveScenario lp k) Eq := by
  rw [solveScenario_eq]
  refine (solveFor_coupled hm hlp _ _ _).bind fun x x' hx => Coupled.get_bind fun M N h => .pure ?_
  have hlinks (M : Stage α) (hM : m.Entered arrival M) : M.links ++ M.noiseLinks = m.linkRows := by
    obtain ⟨as, bs, rows, -, -, hM⟩ := hM
    exact (congrArg linkRows hM.frame :)
  rw [hlinks M h.left, hlinks N h.right, hx.value]
  exact congrArg (x'.value, ·) (List.map_congr_left fun id hid => hx.price id (hm.links id hid))

end Stage

end Recourse
