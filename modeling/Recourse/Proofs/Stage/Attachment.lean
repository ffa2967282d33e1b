import Recourse.Proofs.Cut.Numbering
import Recourse.Stage.Solve

/-! Which rows the cuts of a model have. Behind the rows of the model as it was built stand those of
the attached cuts, in the order of the pool. Before each solve they are brought in line with the
pool, and then there is a row for each stored cut and no other. -/

namespace Recourse

open Run (Keeps)

variable {α : Type}

def CostToGo.bare (ctg : CostToGo α) : CostToGo α :=
  { ctg with pool := ctg.pool.bare, attached := [], version := 0 }

namespace Stage

/-- A model without what solving it changes: its rows, its cuts and its solution. -/
def bare (m : Stage α) : Stage α :=
  { m with
    rows := [], issued := 0, costToGo := m.costToGo.map CostToGo.bare
    status := .pending, solution := none }

def pool? (m : Stage α) : Option (Pool α) := m.costToGo.map CostToGo.pool

def cuts (m : Stage α) : List (Cut α) := (m.pool?.map Pool.cuts).getD []

def lagged (m : Stage α) : Bool := (m.costToGo.map CostToGo.lagged).getD false

theorem lagged_bare (m : Stage α) : m.bare.lagged = m.lagged := by
  rw [lagged, lagged, bare]
  cases m.costToGo <;> rfl

variable [Scalar α] [Numeral α] {m M : Stage α} {c : Cut α} {lagged : Bool}
  {ctg : CostToGo α} {hi : ℕ}
  {base rows : List (Row α)}

/-! ### The row of a cut -/

def cutRow (m : Stage α) (lagged : Bool) (id : ℕ) (c : Cut α) : Row α :=
  { id, name := "cut[" ++ toString c.number ++ "]",
    terms := m.cutTerms lagged (m.costToGoColumn.getD 0) c
    relation := .atLeast, rhs := m.sense.orient c.intercept }

def checkRow (m : Stage α) (lagged : Bool) (c : Cut α) : Except (Fault α) Unit := do
  m.checkCut lagged c
  match m.costToGoColumn with
  | none => throw (.kind .number)
  | some _ => if !Scalar.isNumber c.intercept then throw (.program .number)

def withCut (m : Stage α) (lagged : Bool) (c : Cut α) : Stage α :=
  { m with
    rows := m.rows ++ [m.cutRow lagged m.issued c], issued := m.issued + 1
    status := .pending, solution := none
    costToGo := m.costToGo.map fun ctg =>
    { ctg with attached := ctg.attached ++ [(c.number, m.issued)] } }

theorem attachCut_on (lagged : Bool) (c : Cut α) (m : Stage α) :
    (attachCut lagged c).on m =
      (m.checkRow lagged c, if (m.checkRow lagged c).isOk then m.withCut lagged c else m) := by
  rw [attachCut, Run.bind_ok _ (Run.get_on m), checkRow]
  rcases m.checkCut lagged c with e | _
  · rfl
  rcases hcolumn : m.costToGoColumn with _ | column
  · rfl
  have hname : ("cut[" ++ toString c.number ++ "]").isEmpty = false := by simp
  have hrow : m.cutRow lagged m.issued c = ⟨m.issued, "cut[" ++ toString c.number ++ "]",
      m.cutTerms lagged column c, .atLeast, m.sense.orient c.intercept⟩ := by
      rw [cutRow, hcolumn]; rfl
  have hput : (putRow ("cut[" ++ toString c.number ++ "]") (m.cutTerms lagged column c) .atLeast
      (m.sense.orient c.intercept)).on m = (.ok m.issued, { m with
        rows := m.rows ++ [m.cutRow lagged m.issued c], issued := m.issued + 1, status := .pending
        solution := none }) := by
    rw [hrow]
    simp only [Run.on, putRow, hname]
    rfl
  rcases Scalar.isNumber c.intercept with _ | _
  · rfl
  · refine (Run.bind_ok _ (Run.ofExcept_on _ m)).trans ?_
    exact (Run.bind_ok _ hput).trans rfl

/-! ### Attached cuts -/

/-- An attached cut, known by its number and the identifier of its row. As long as the cut is
stored, the row is that of the cut in the model `m`. -/
structure Attached (m : Stage α) (ctg : CostToGo α) (hi : ℕ) (a : ℕ × ℕ) (r : Row α) : Prop where
  id : r.id = a.2
  number : a.1 < ctg.pool.issued
  fresh : m.issued ≤ a.2
  old : a.2 < hi
  row : ∀ c ∈ ctg.pool.cuts, c.number = a.1 →
    m.checkRow ctg.lagged c = .ok () ∧ r = m.cutRow ctg.lagged a.2 c

/-- A cost-to-go function whose attached cuts have the given rows, with identifiers from `m.issued`
on and below `hi`. Cuts are attached in the order of the pool, and while the version is that of the
pool they are just the stored ones. -/
structure Carries (m : Stage α) (ctg : CostToGo α) (hi : ℕ) (rows : List (Row α)) : Prop where
  numbered : ctg.pool.Numbered
  rows : List.Forall₂ (m.Attached ctg hi) ctg.attached rows
  growing : ctg.attached.Pairwise fun a b => a.1 < b.1 ∧ a.2 < b.2
  pending : ∀ c ∈ ctg.pool.cuts, c.number ∈ ctg.attached.map (·.1) ∨
    ∀ a ∈ ctg.attached, a.1 < c.number
  version : ctg.version ≤ ctg.pool.version
  current : ctg.version = ctg.pool.version → ctg.attached.map (·.1) = ctg.pool.cuts.map Cut.number

namespace Carries

variable (h : m.Carries ctg hi rows)
include h

theorem attached {a : ℕ × ℕ} (ha : a ∈ ctg.attached) : ∃ r ∈ rows, m.Attached ctg hi a r := by
  obtain ⟨i, hi, rfl⟩ := List.mem_iff_getElem.mp ha
  exact ⟨_, List.getElem_mem (h.rows.length_eq ▸ hi), h.rows.get hi (h.rows.length_eq ▸ hi)⟩

theorem fresh {r : Row α} (hr : r ∈ rows) : m.issued ≤ r.id := by
  obtain ⟨i, hi, rfl⟩ := List.mem_iff_getElem.mp hr
  have hrow := h.rows.get (h.rows.length_eq ▸ hi) hi
  exact hrow.fresh.trans hrow.id.ge

theorem withPool {pool : Pool α} (hpool : ctg.pool.Grows pool) :
    m.Carries { ctg with pool } hi rows where
  numbered := hpool.numbered h.numbered
  rows := by
    refine h.rows.imp fun a r har =>
      ⟨har.id, har.number.trans_le hpool.issued, har.fresh, har.old, fun c hc hnumber => ?_⟩
    rcases hpool.cuts c hc with hc | hc
    · exact har.row c hc hnumber
    · have := har.number
      omega
  growing := h.growing
  pending := fun c hc => by
    rcases hpool.cuts c hc with hc | hc
    · exact h.pending c hc
    · refine .inr fun a ha => ?_
      obtain ⟨r, -, har⟩ := h.attached ha
      exact har.number.trans_le hc
  version := by
    rcases hpool.version with hlt | ⟨heq, -⟩
    · exact h.version.trans hlt.le
    · exact h.version.trans heq.ge
  current := fun heq => by
    rcases hpool.version with hlt | ⟨hversion, hcuts⟩
    · have hle := h.version
      change ctg.version = pool.version at heq
      omega
    · exact (h.current (heq.trans hversion)).trans (by rw [hcuts])

/-- While all numbers of the pool are attached, and no others, the rows are those of the stored
cuts. -/
theorem rows_eq (hnumbers : ctg.attached.map (·.1) = ctg.pool.cuts.map Cut.number) :
    List.Forall₂ (fun c r => m.checkRow ctg.lagged c = .ok () ∧ r = m.cutRow ctg.lagged r.id c)
      ctg.pool.cuts rows := by
  have hlength : ctg.attached.length = ctg.pool.cuts.length := by
    simpa using congrArg List.length hnumbers
  refine List.forall₂_iff_get.mpr ⟨hlength ▸ h.rows.length_eq, fun i hc hr => ?_⟩
  have ha : i < ctg.attached.length := hlength ▸ hc
  have hrow := h.rows.get ha hr
  have hnumber : ctg.attached[i].1 = ctg.pool.cuts[i].number := by
    have := List.getElem_of_eq hnumbers (by simpa using ha)
    simpa using this
  obtain ⟨hcheck, hcut⟩ := hrow.row _ (List.getElem_mem hc) hnumber.symm
  have hid : rows.get ⟨i, hr⟩ = m.cutRow ctg.lagged (rows.get ⟨i, hr⟩).id ctg.pool.cuts[i] := by
    rw [hrow.id]
    exact hcut
  exact ⟨hcheck, hid⟩

theorem append (hlt : ctg.version < ctg.pool.version) (hhi : m.issued ≤ hi) (hc : c ∈ ctg.pool.cuts)
    (habove : ∀ a ∈ ctg.attached, a.1 < c.number)
    (hpending : ∀ d ∈ ctg.pool.cuts,
      d.number ∈ ctg.attached.map (·.1) ∨ d = c ∨ c.number < d.number)
    (hcheck : m.checkRow ctg.lagged c = .ok ()) :
    m.Carries { ctg with attached := ctg.attached ++ [(c.number, hi)] } (hi + 1)
      (rows ++ [m.cutRow ctg.lagged hi c]) where
  numbered := h.numbered
  rows := by
    refine List.rel_append (h.rows.imp fun a r har => ?_) (.cons ?_ .nil)
    · exact ⟨har.id, har.number, har.fresh, har.old.trans (Nat.lt_succ_self hi), har.row⟩
    · refine ⟨rfl, h.numbered.issued c hc, hhi, Nat.lt_succ_self hi, fun d hd hnumber => ?_⟩
      obtain rfl : d = c := h.numbered.eq_of_number hd hc hnumber
      exact ⟨hcheck, rfl⟩
  growing := by
    refine List.pairwise_append.mpr ⟨h.growing, by simp, fun a ha b hb => ?_⟩
    obtain rfl := List.mem_singleton.mp hb
    obtain ⟨r, -, har⟩ := h.attached ha
    exact ⟨habove a ha, har.old⟩
  pending := fun d hd => by
    rcases hpending d hd with hd | rfl | hd
    · exact .inl (by simpa using .inl (by simpa using hd))
    · exact .inl (by simp)
    · refine .inr fun a ha => ?_
      rcases List.mem_append.mp ha with ha | ha
      · exact (habove a ha).trans hd
      · rw [List.mem_singleton.mp ha]
        exact hd
  version := h.version
  current := fun heq => absurd heq hlt.ne

theorem isAttached_iff (hc : c ∈ ctg.pool.cuts) :
    isAttached ctg.attached c = true ↔ c.number ∈ ctg.attached.map (·.1) := by
  simp [isAttached, h.numbered.index c hc]

theorem above_of_waiting (hc : c ∈ ctg.pool.cuts) (hwaits : isAttached ctg.attached c = false) :
    ∀ a ∈ ctg.attached, a.1 < c.number :=
  (h.pending c hc).resolve_left fun hmem =>
    absurd ((h.isAttached_iff hc).mpr hmem) (by simp [hwaits])

/-- The attached cuts fit, so that the first fault among the stored cuts is one of a cut that
waits. -/
theorem forM_waiting : (ctg.pool.cuts.filter fun c => !isAttached ctg.attached c).forM
    (m.checkRow ctg.lagged) =
    ctg.pool.cuts.forM (m.checkRow ctg.lagged) := by
  refine forM_filter fun c hc hp => ?_
  obtain ⟨a, ha, hac⟩ := List.mem_map.mp ((h.isAttached_iff hc).mp (by simpa using hp))
  obtain ⟨r, -, har⟩ := h.attached ha
  exact (har.row c hc hac.symm).1

/-- Where all stored cuts are attached, the rows of the others are removed by their identifiers. -/
theorem filter (hall : ∀ c ∈ ctg.pool.cuts, c.number ∈ ctg.attached.map (·.1))
    {stored : ℕ × ℕ → Bool} (hstored : ∀ a, stored a = true ↔ a.1 ∈ ctg.pool.cuts.map Cut.number)
    {stale : List ℕ}
    (hstale : ∀ a ∈ ctg.attached, a.2 ∈ stale ↔ stored a = false) :
    m.Carries { ctg with attached := ctg.attached.filter stored, version := ctg.pool.version } hi
      (rows.filter fun r => !stale.contains r.id) := by
  have hkept : ctg.attached.filter stored = ctg.attached.filter fun a => !stale.contains a.2 := by
    refine List.filter_congr fun a ha => ?_
    rw [Bool.eq_iff_iff]
    simp [hstale a ha]
  have hnumbers : (ctg.attached.filter stored).map (·.1) = ctg.pool.cuts.map Cut.number := by
    have hgrowing : ((ctg.attached.filter stored).map (·.1)).Pairwise (· < ·) :=
      List.pairwise_map.mpr ((h.growing.filter _).imp fun hab => hab.1)
    refine List.Pairwise.eq_of_mem_iff hgrowing h.numbered.growing fun n => ?_
    constructor
    · intro hn
      obtain ⟨a, ha, rfl⟩ := List.mem_map.mp hn
      exact (hstored a).mp (List.mem_filter.mp ha).2
    · intro hn
      obtain ⟨c, hc, rfl⟩ := List.mem_map.mp hn
      obtain ⟨a, ha, hac⟩ := List.mem_map.mp (hall c hc)
      exact List.mem_map.mpr ⟨a, List.mem_filter.mpr ⟨ha, (hstored a).mpr (hac ▸ hn)⟩, hac⟩
  refine ⟨h.numbered, ?_, h.growing.filter _, fun c hc => .inl ?_, le_rfl, fun _ => hnumbers⟩
  · have hrows := List.rel_filter (R := m.Attached ctg hi) (p := fun a => !stale.contains a.2)
      (q := fun r => !stale.contains r.id) (fun a r har => by simp only [har.id]) h.rows
    change List.Forall₂ _ (ctg.attached.filter stored) _
    rw [hkept]
    exact hrows.imp fun a r har => ⟨har.id, har.number, har.fresh, har.old, har.row⟩
  · change c.number ∈ (ctg.attached.filter stored).map (·.1)
    rw [hnumbers]
    exact List.mem_map_of_mem hc

end Carries

/-! ### Attaching -/

/-- A model that has become of `m`: behind some other rows, it has those of its attached cuts. -/
structure Bears (m : Stage α) (base more : List (Row α)) (M : Stage α) : Prop where
  frame : M.bare = m.bare
  issued : m.issued ≤ M.issued
  rows : M.rows = base ++ more
  none : M.costToGo = none → more = []
  some : ∀ ctg, M.costToGo = some ctg → m.Carries ctg M.issued more

theorem checkRow_eq (h : M.bare = m.bare) : M.checkRow = m.checkRow := (congrArg checkRow h :)

omit [Numeral α] in
theorem cutRow_eq (h : M.bare = m.bare) : M.cutRow = m.cutRow := (congrArg cutRow h :)

omit [Numeral α] in
theorem withCut_costToGo (hctg : M.costToGo = some ctg) (lagged : Bool) (c : Cut α) :
    (M.withCut lagged c).costToGo =
      some { ctg with attached := ctg.attached ++ [(c.number, M.issued)] } := by
  rw [withCut, hctg]
  rfl

theorem bears_withCut {c : Cut α} (h : m.Bears base rows M) (hctg : M.costToGo = some ctg)
    (hnext : m.Carries { ctg with attached := ctg.attached ++ [(c.number, M.issued)] }
      (M.issued + 1) (rows ++ [m.cutRow ctg.lagged M.issued c])) :
    m.Bears base (rows ++ [m.cutRow ctg.lagged M.issued c]) (M.withCut ctg.lagged c) := by
  have hctg' := withCut_costToGo hctg ctg.lagged c
  refine ⟨?_, h.issued.trans (Nat.le_succ _), ?_, fun hnone => ?_, fun later hlater => ?_⟩
  · rw [← h.frame, bare, bare, hctg', hctg]
    rfl
  · rw [withCut, h.rows, cutRow_eq h.frame, List.append_assoc]
  · cases hctg'.symm.trans hnone
  · obtain rfl := Option.some.inj (hctg'.symm.trans hlater)
    exact hnext

/-- Attaching the cuts that wait, in the order of the pool, up to the first one that does not
fit. -/
theorem attachAll_spec (h : m.Bears base rows M) (hctg : M.costToGo = some ctg)
    (hlt : ctg.version < ctg.pool.version)
    {cs : List (Cut α)} (hcs : ∀ c ∈ cs, c ∈ ctg.pool.cuts)
    (hgrowing : (cs.map Cut.number).Pairwise (· < ·))
    (habove : ∀ c ∈ cs, ∀ a ∈ ctg.attached, a.1 < c.number)
    (hrest : ∀ c ∈ ctg.pool.cuts, c.number ∈ ctg.attached.map (·.1) ∨ c ∈ cs) :
    ∃ M' rows' attached,
    (cs.forM (attachCut ctg.lagged)).on M = (cs.forM (m.checkRow ctg.lagged), M') ∧
      m.Bears base rows' M' ∧ M'.costToGo = some { ctg with attached } ∧
      (cs.forM (m.checkRow ctg.lagged) = .ok () →
        ∀ c ∈ ctg.pool.cuts, c.number ∈ attached.map (·.1)) := by
  induction cs generalizing M ctg rows with
  | nil => exact ⟨M, rows, ctg.attached, rfl, h, hctg, fun _ c hc => by simpa using hrest c hc⟩
  | cons c cs ih =>
    have hcheck := checkRow_eq h.frame
    have hattach := attachCut_on ctg.lagged c M
    rw [hcheck] at hattach
    have hforM : (c :: cs).forM (m.checkRow ctg.lagged) =
        m.checkRow ctg.lagged c >>= fun _ => cs.forM (m.checkRow ctg.lagged) := rfl
    rw [hforM]
    rcases hc : m.checkRow ctg.lagged c with e | _
    · rw [hc] at hattach
      exact ⟨M, rows, ctg.attached, Run.bind_error _ hattach, h, hctg, fun h => by cases h⟩
    rw [hc] at hattach
    have hcarries := h.some ctg hctg
    rw [List.map_cons, List.pairwise_cons] at hgrowing
    have hnext := hcarries.append hlt h.issued (hcs c (by simp)) (habove c (by simp))
      (fun d hd => ?_) hc
    · have habove' : ∀ d ∈ cs, ∀ a ∈ ctg.attached ++ [(c.number, M.issued)], a.1 < d.number := by
        intro d hd a ha
        rcases List.mem_append.mp ha with ha | ha
        · exact habove d (by simp [hd]) a ha
        · rw [List.mem_singleton.mp ha]
          exact hgrowing.1 _ (List.mem_map_of_mem hd)
      have hrest' : ∀ d ∈ ctg.pool.cuts,
          d.number ∈ (ctg.attached ++ [(c.number, M.issued)]).map (·.1) ∨ d ∈ cs := by
        intro d hd
        rw [List.map_append, List.mem_append]
        rcases hrest d hd with hd | hd
        · exact .inl (.inl hd)
        · rcases List.mem_cons.mp hd with rfl | hd
          · exact .inl (.inr (by simp))
          · exact .inr hd
      obtain ⟨M', rows', attached, hrun, hM', hctg', hall⟩ :=
        ih (bears_withCut h hctg hnext) (withCut_costToGo hctg ctg.lagged c) hlt
          (fun d hd => hcs d (by simp [hd])) hgrowing.2 habove' hrest'
      exact ⟨M', rows', attached, (Run.bind_ok _ hattach).trans hrun, hM', hctg', hall⟩
    · rcases hrest d hd with hd | hd
      · exact .inl hd
      · rcases List.mem_cons.mp hd with rfl | hd
        · exact .inr (.inl rfl)
        · exact .inr (.inr (hgrowing.1 _ (List.mem_map_of_mem hd)))

omit [Scalar α] [Numeral α] in
theorem removeRows_on (stale : List ℕ) (M : Stage α) : ∃ status solution, (removeRows stale).on M =
    (.ok (), { M with rows := M.rows.filter fun r => !stale.contains r.id, status, solution }) := by
  by_cases hstale : stale.isEmpty = true
  · refine ⟨M.status, M.solution, ?_⟩
    have hrows : (M.rows.filter fun r => !stale.contains r.id) = M.rows := by
      rw [List.isEmpty_iff.mp hstale]
      exact List.filter_eq_self.mpr fun _ _ => rfl
    rw [hrows]
    simp [Run.on, removeRows, hstale]
  · refine ⟨.pending, none, ?_⟩
    simp [Run.on, removeRows, hstale, discard]

/-- Once all stored cuts are attached, the others are removed. -/
theorem detach_spec (hbase : ∀ r ∈ base, r.id < m.issued) (h : m.Bears base rows M)
    (hctg : M.costToGo = some ctg)
    (hall : ∀ c ∈ ctg.pool.cuts, c.number ∈ ctg.attached.map (·.1)) :
    ∃ M' rows' attached, detach.on M = (.ok (), M') ∧ m.Bears base rows' M' ∧
      M'.costToGo = some { ctg with attached, version := ctg.pool.version } := by
  have hcarries := h.some ctg hctg
  set stored : ℕ × ℕ → Bool := fun a => ctg.pool.cuts.any fun c => c.index == some a.1 with hstored
  have hstored (a : ℕ × ℕ) : stored a = true ↔ a.1 ∈ ctg.pool.cuts.map Cut.number := by
    simp only [hstored, List.any_eq_true, List.mem_map, beq_iff_eq]
    refine exists_congr fun c => and_congr_right fun hc => ?_
    rw [hcarries.numbered.index c hc, Option.some.injEq]
  set stale := (ctg.attached.filter fun a => !stored a).map (·.2) with hstale
  have hstale : ∀ a ∈ ctg.attached, a.2 ∈ stale ↔ stored a = false := by
    intro a ha
    simp only [hstale, List.mem_map, List.mem_filter, Bool.not_eq_true']
    refine ⟨?_, fun h => ⟨a, ⟨ha, h⟩, rfl⟩⟩
    rintro ⟨b, ⟨hb, hsb⟩, hab⟩
    have hinj := List.inj_on_of_nodup_map
      (List.pairwise_map.mpr (hcarries.growing.imp fun hlt => hlt.2.ne) : (ctg.attached.map
      (·.2)).Nodup) hb ha hab
    exact hinj ▸ hsb
  obtain ⟨status, solution, hremove⟩ := removeRows_on stale M
  have hrun : detach.on M = (.ok (), { M with
      rows := M.rows.filter fun r => !stale.contains r.id, status, solution
      costToGo := some { ctg with
        attached := ctg.attached.filter stored, version := ctg.pool.version } }) := by
    rw [detach, Run.bind_ok _ (Run.get_on M), hctg]
    simp only [List.partition_eq_filter_filter]
    exact (Run.bind_ok _ hremove).trans rfl
  have hkept : base.filter (fun r => !stale.contains r.id) = base := by
    refine List.filter_eq_self.mpr fun r hr => ?_
    have hfresh : r.id ∉ stale := by
      intro hmem
      obtain ⟨a, ha, hid⟩ := List.mem_map.mp hmem
      obtain ⟨r', -, har⟩ := hcarries.attached (List.mem_filter.mp ha).1
      have := hbase r hr
      have := har.fresh
      omega
    simpa using hfresh
  refine ⟨_, rows.filter fun r => !stale.contains r.id, _, hrun,
    ⟨?_, h.issued, ?_, fun hnone => ?_, fun ctg' hctg' => ?_⟩, rfl⟩
  · rw [← h.frame, bare, bare, hctg]
    rfl
  · change M.rows.filter _ = _
    rw [h.rows, List.filter_append, hkept]
  · cases hnone
  · obtain rfl := Option.some.inj hctg'
    exact hcarries.filter hall hstored hstale

def HasRows (m : Stage α) (cuts : List (Cut α)) (rows : List (Row α)) : Prop :=
  List.Forall₂ (fun c r => r = m.cutRow m.lagged r.id c) cuts rows

private theorem attach_none (hctg : M.costToGo = none) : attach.on M = (.ok (), M) := by
  rw [attach, Run.bind_ok _ (Run.get_on M), hctg]
  rfl

private theorem attach_current (hctg : M.costToGo = some ctg)
    (hversion : ctg.pool.version = ctg.version) :
    attach.on M = (.ok (), M) := by
  rw [attach, Run.bind_ok _ (Run.get_on M), hctg]
  exact congrArg (fun act : Edit α Unit => act.on M) (if_pos hversion)

private theorem attach_behind (hctg : M.costToGo = some ctg)
    (hversion : ctg.pool.version ≠ ctg.version) :
    attach.on M = ((ctg.pool.cuts.filter fun c => !isAttached ctg.attached c).forM
      (attachCut ctg.lagged) >>=
      fun _ => detach).on M := by
  rw [attach, Run.bind_ok _ (Run.get_on M), hctg]
  exact congrArg (fun act : Edit α Unit => act.on M) (if_neg hversion)

/-- Attaching succeeds if and only if each stored cut fits. Then there is a row for each of them,
and the rows are in the order of the pool. -/
theorem attach_spec (hbase : ∀ r ∈ base, r.id < m.issued) (h : m.Bears base rows M) :
    ∃ M' rows', attach.on M = (M.cuts.forM (m.checkRow m.lagged), M') ∧ m.Bears base rows' M' ∧
      M'.pool? = M.pool? ∧
      (M.cuts.forM (m.checkRow m.lagged) = .ok () → m.HasRows M.cuts rows') := by
  have hlagged : M.lagged = m.lagged := by rw [← lagged_bare M, h.frame, lagged_bare]
  rcases hctg : M.costToGo with _ | ctg
  · have hcuts : M.cuts = [] := by rw [cuts, pool?, hctg]; rfl
    rw [hcuts]
    refine ⟨M, rows, attach_none hctg, h, rfl, fun _ => ?_⟩
    rw [h.none hctg]
    exact .nil
  have hcarries := h.some ctg hctg
  have hcuts : M.cuts = ctg.pool.cuts := by rw [cuts, pool?, hctg]; rfl
  have hlagged : m.lagged = ctg.lagged := by rw [← hlagged, Stage.lagged, hctg]; rfl
  rw [hcuts, hlagged]
  by_cases hversion : ctg.pool.version = ctg.version
  · have hrows := hcarries.rows_eq (hcarries.current hversion.symm)
    have hcheck : ctg.pool.cuts.forM (m.checkRow ctg.lagged) = .ok () :=
      forM_ok fun c hc => by
        obtain ⟨i, hi, rfl⟩ := List.mem_iff_getElem.mp hc
        exact (hrows.get hi (hrows.length_eq ▸ hi)).1
    rw [hcheck]
    refine ⟨M, rows, attach_current hctg hversion, h, rfl, fun _ => ?_⟩
    rw [HasRows, hlagged]
    exact hrows.imp fun c r hr => hr.2
  rw [attach_behind hctg hversion]
  set waiting := ctg.pool.cuts.filter fun c => !isAttached ctg.attached c with hwaiting
  have hmem (c : Cut α) : c ∈ waiting ↔ c ∈ ctg.pool.cuts ∧ isAttached ctg.attached c = false := by
    simp [hwaiting]
  have hrest : ∀ c ∈ ctg.pool.cuts, c.number ∈ ctg.attached.map (·.1) ∨ c ∈ waiting := by
    intro c hc
    rw [← hcarries.isAttached_iff hc, hmem]
    exact (Bool.eq_false_or_eq_true (isAttached ctg.attached c)).imp_right fun h => ⟨hc, h⟩
  obtain ⟨M', rows', attached, hrun, hM', hctg', hall⟩ := attachAll_spec h hctg
    (lt_of_le_of_ne hcarries.version (Ne.symm hversion)) (fun c hc => ((hmem c).mp hc).1)
    (hcarries.numbered.growing.sublist (List.filter_sublist.map _))
    (fun c hc => hcarries.above_of_waiting ((hmem c).mp hc).1 ((hmem c).mp hc).2) hrest
  rw [hwaiting, hcarries.forM_waiting] at hrun hall
  rcases hcheck : ctg.pool.cuts.forM (m.checkRow ctg.lagged) with e | _
  · rw [hcheck] at hrun
    exact ⟨M', rows', Run.bind_error _ hrun,
      hM', by rw [pool?, pool?, hctg', hctg]; rfl, fun h => by cases h⟩
  rw [hcheck] at hrun hall
  obtain ⟨M'', rows'', attached', hdetach, hM'', hctg''⟩ := detach_spec hbase hM' hctg' (hall rfl)
  refine ⟨M'', rows'', (Run.bind_ok _ hrun).trans hdetach,
    hM'', by rw [pool?, pool?, hctg'', hctg]; rfl, fun _ => ?_⟩
  have hcarries'' := hM''.some _ hctg''
  rw [HasRows, hlagged]
  exact (hcarries''.rows_eq (hcarries''.current rfl)).imp fun c r hr => hr.2

end Stage

end Recourse
