import Recourse.Proofs.Fraction
import Recourse.Proofs.Stage.Building

/-! What a refused call leaves behind. The calls by which a model is written check what they are
given at different times: some before they touch the model, some after they have added columns or
rows, and of these some take back what they added and some do not. -/

namespace Recourse

variable {α β γ : Type}

/-- The faults by which a call on a model is refused: something is malformed, samples do not agree
in number, a value is not acceptable, or a datum is of the wrong kind. The others come from the
linear program and from arithmetic. -/
def Fault.isRefusal : Fault α → Bool
  | .construction _ | .sampleSize .. | .value _ | .kind _ => true
  | _ => false

namespace Stage

open Run (Keeps Triple)

/-- A model with columns and rows behind those that it had. All else is as it was, but for the count
of the rows that were ever added and for the last solution. -/
structure Enlarged (m : Stage α) (columns : List (Column α)) (unlisted : List ℕ)
    (rows : List (Row α)) (m' : Stage α) :
    Prop where
  frame : m' = { m with
    columns := m.columns ++ columns, unlisted := m.unlisted ++ unlisted
    rows := m.rows ++ rows, issued := m'.issued
    status := m'.status, solution := m'.solution }
  issued : m.issued ≤ m'.issued
  fresh : ∀ r ∈ rows, m.issued ≤ r.id

variable {m m' m'' : Stage α} {columns columns' : List (Column α)} {unlisted unlisted' : List ℕ}
  {rows rows' : List (Row α)} {e : Fault α}

theorem Enlarged.refl (m : Stage α) : m.Enlarged [] [] [] m := ⟨by simp, le_rfl, by simp⟩

theorem Enlarged.trans (h : m.Enlarged columns unlisted rows m')
    (h' : m'.Enlarged columns' unlisted' rows' m'') :
    m.Enlarged (columns ++ columns') (unlisted ++ unlisted') (rows ++ rows') m'' := by
  refine ⟨?_, h.issued.trans h'.issued, fun r hr => ?_⟩
  · have hframe := h'.frame
    rw [h.frame] at hframe
    simpa using hframe
  · rcases List.mem_append.mp hr with hr | hr
    · exact h.fresh r hr
    · exact h.issued.trans (h'.fresh r hr)

theorem enlarged_unlisted (m : Stage α) (unlisted : List ℕ) :
    m.Enlarged [] unlisted [] { m with unlisted := m.unlisted ++ unlisted } :=
  ⟨by simp, le_rfl, by simp⟩

theorem Enlarged.length_columns (h : m.Enlarged columns unlisted rows m') :
    m'.columns.length = m.columns.length + columns.length := by
  rw [h.frame, List.length_append]

/-- Once its new rows are removed, a model is as it was. -/
theorem Enlarged.removed (h : m.Enlarged [] [] rows m') (hrows : ∀ r ∈ m.rows, r.id < m.issued)
    {ids : List ℕ} (hnew : ∀ r ∈ rows, r.id ∈ ids) (hids : ∀ id ∈ ids, m.issued ≤ id) :
    m.Enlarged [] [] [] ((removeRows ids).on m').2 := by
  obtain ⟨status, solution, hrun⟩ := removeRows_on ids m'
  have hold : m.rows.filter (fun r => !ids.contains r.id) = m.rows := by
    refine List.filter_eq_self.mpr fun r hr => ?_
    have hmem : r.id ∉ ids := fun hmem => absurd (hrows r hr) (hids _ hmem).not_gt
    simpa using hmem
  have hgone : rows.filter (fun r => !ids.contains r.id) = [] := by
    refine List.filter_eq_nil_iff.mpr fun r hr => ?_
    simpa using hnew r hr
  have hrest : m'.rows.filter (fun r => !ids.contains r.id) = m.rows := by
    rw [h.frame, List.filter_append, hold, hgone, List.append_nil]
  have hframe := h.frame
  simp only [List.append_nil] at hframe
  rw [hrun, hrest]
  refine ⟨?_, h.issued, by simp⟩
  rw [hframe]
  simp

variable [Scalar α]

/-! ### Columns -/

theorem putColumn_enlarged (c : Column α) (m : Stage α) :
    ∃ placed m', (putColumn c).on m = (.ok m.columns.length, m') ∧ m.Enlarged [placed] [] [] m' :=
  let name := if c.name.isEmpty then "C" ++ toString m.columns.length else c.name
  ⟨{ c with name, lower := c.lower.asLower, upper := c.upper.asUpper }, _, rfl,
    by simp only [discard, List.append_nil]; rfl, le_rfl, by simp⟩

theorem putColumns_enlarged (cs : List (Column α)) (m : Stage α) :
    ∃ placed m', (cs.mapM putColumn).on m = (.ok (List.range' m.columns.length cs.length), m') ∧
      placed.length = cs.length ∧ m.Enlarged placed [] [] m' := by
  induction cs generalizing m with
  | nil => exact ⟨[], m, rfl, rfl, .refl m⟩
  | cons c cs ih =>
    obtain ⟨placed, m₁, hput, hlarger⟩ := putColumn_enlarged c m
    obtain ⟨others, m₂, hputs, hlength, hothers⟩ := ih m₁
    refine ⟨placed :: others, m₂, ?_, congrArg (· + 1) hlength, hlarger.trans hothers⟩
    rw [List.mapM_cons, Run.bind_ok _ hput, Run.bind_ok _ hputs, hlarger.length_columns,
      List.length_singleton]
    rfl

theorem isRefusal_of_check {c : Column α} (h : c.check = .error e) : e.isRefusal = false := by
  unfold Column.check at h
  split_ifs at h <;> cases h <;> rfl

theorem checkColumns_on (cs : List (Column α)) (m : Stage α) :
    (cs.forM fun c => (Run.ofExcept c.check : Edit α Unit)).on m = (cs.forM Column.check, m) := by
  induction cs with
  | nil => rfl
  | cons c cs ih =>
    change (Run.ofExcept c.check >>=
      fun _ => cs.forM fun c => (Run.ofExcept c.check : Edit α Unit)).on m =
      (c.check >>= fun _ => cs.forM Column.check, m)
    rcases hc : c.check with e | _
    · exact Run.bind_error _ (Run.ofExcept_on _ m)
    · exact (Run.bind_ok _ (Run.ofExcept_on _ m)).trans ih

/-- Columns are added all at once or not at all. -/
theorem addColumns_cases (cs : List (Column α)) (m : Stage α) :
    (∃ e, (addColumns cs).on m = (.error e, m) ∧ e.isRefusal = false) ∨
    ∃ placed m', (addColumns cs).on m = (.ok (List.range' m.columns.length cs.length), m') ∧
      placed.length = cs.length ∧ m.Enlarged placed [] [] m' := by
  have hchecks := checkColumns_on cs m
  rcases hcs : cs.forM Column.check with e | _
  · rw [hcs] at hchecks
    obtain ⟨c, -, hc⟩ := error_of_forM hcs
    exact .inl ⟨e, Run.bind_error _ hchecks, isRefusal_of_check hc⟩
  · rw [hcs] at hchecks
    obtain ⟨placed, m', hput, hplaced⟩ := putColumns_enlarged cs m
    exact .inr ⟨placed, m', (Run.bind_ok _ hchecks).trans hput, hplaced⟩

/-! ### Rows -/

theorem addRow_cases (name : String) (terms : List (ℕ × α)) (relation : Relation) (rhs : α)
    (m : Stage α) :
    (∃ e, (addRow name terms relation rhs).on m = (.error e, m) ∧ e.isRefusal = false) ∨
    ∃ r m', (addRow name terms relation rhs).on m = (.ok m.issued, m') ∧ r.id = m.issued ∧
      m.Enlarged [] [] [r] m' := by
  unfold addRow
  split_ifs
  · exact .inl ⟨_, rfl, rfl⟩
  · exact .inl ⟨_, rfl, rfl⟩
  · exact .inl ⟨_, rfl, rfl⟩
  · refine .inr ⟨⟨m.issued, if name.isEmpty then "R" ++ toString m.issued else name, terms,
      relation, rhs⟩, _, rfl, rfl, ?_⟩
    refine ⟨?_, Nat.le_succ _, fun r hr => ?_⟩
    · simp only [discard, List.append_nil]
    · rw [List.mem_singleton.mp hr]

private theorem addBlock_aux (numbered : List (Except (Fault α) (Constraint α) × ℕ)) (name : String)
    (m : Stage α) :
    let act := numbered.mapM fun (c, i) => do
      addConstraintRow (← Run.ofExcept c) (memberName name (toString i))
    (∃ e rows m', act.on m = (.error e, m') ∧ m.Enlarged [] [] rows m' ∧
      (e.isRefusal = true → .error e ∈ numbered.map (·.1))) ∨
    ∃ ids rows m', act.on m = (.ok ids, m') ∧ m.Enlarged [] [] rows m' ∧ (∀ r ∈ rows, r.id ∈ ids) ∧
      ∀ id ∈ ids, m.issued ≤ id := by
  induction numbered generalizing m with
  | nil => exact .inr ⟨[], [], m, rfl, .refl m, by simp, by simp⟩
  | cons x numbered ih =>
    obtain ⟨c, i⟩ := x
    dsimp only
    rw [List.mapM_cons]
    rcases c with e | c
    · refine .inl ⟨e, [], m, Run.bind_error _ (Run.bind_error _ (Run.ofExcept_on _ m)), .refl m,
        fun _ => by simp⟩
    have hread := Run.bind_ok (fun c => addConstraintRow c (memberName name (toString i)))
      (Run.ofExcept_on (.ok c) m)
    rcases addRow_cases (memberName name (toString i)) c.gathered c.relation
      (c.rhs - c.constant) m with
      ⟨e, hrow, he⟩ | ⟨r, m₁, hrow, hid, hlarger⟩
    · refine .inl ⟨e, [], m, Run.bind_error _ (hread.trans hrow), .refl m, fun h => ?_⟩
      rw [he] at h
      cases h
    rcases ih m₁ with ⟨e, rows, m₂, hrest, hrows, he⟩ | ⟨ids, rows, m₂, hrest, hrows, hids, hfresh⟩
    · refine .inl ⟨e, r :: rows, m₂, ?_, hlarger.trans hrows,
        fun h => List.mem_cons_of_mem _ (he h)⟩
      rw [Run.bind_ok _ (hread.trans hrow)]
      exact Run.bind_error _ hrest
    · refine .inr ⟨m.issued :: ids, r :: rows, m₂, ?_, hlarger.trans hrows, ?_, ?_⟩
      · rw [Run.bind_ok _ (hread.trans hrow), Run.bind_ok _ hrest]
        rfl
      · intro r' hr'
        rcases List.mem_cons.mp hr' with rfl | hr'
        · exact hid ▸ List.mem_cons_self
        · exact List.mem_cons_of_mem _ (hids r' hr')
      · intro id hmem
        rcases List.mem_cons.mp hmem with rfl | hmem
        · exact le_rfl
        · exact hlarger.issued.trans (hfresh id hmem)

theorem addBlock_cases (cs : List (Except (Fault α) (Constraint α))) (name : Datum α)
    (m : Stage α) :
    (∃ e, (addBlock cs name).on m = (.error e, m)) ∨
    (∃ e rows m', (addBlock cs name).on m = (.error e, m') ∧ m.Enlarged [] [] rows m' ∧
      (e.isRefusal = true → .error e ∈ cs)) ∨
    ∃ ids rows m', (addBlock cs name).on m = (.ok ids, m') ∧ m.Enlarged [] [] rows m' ∧
      (∀ r ∈ rows, r.id ∈ ids) ∧
      ∀ id ∈ ids, m.issued ≤ id := by
  unfold addBlock
  rcases name.asName with e | name
  · exact .inl ⟨e, Run.bind_error _ (Run.ofExcept_on _ m)⟩
  rw [Run.bind_ok _ (Run.ofExcept_on _ m)]
  have hblock := addBlock_aux cs.zipIdx name m
  rw [List.zipIdx_map_fst] at hblock
  exact .inr hblock

/-! ### Variables and families -/

variable [Numeral α] {r : Request α} {keys : List (List (Datum α))}

theorem addVariable_cases (r : Request α) (m : Stage α) :
    (∃ e, (addVariable r).on m = (.error e, m) ∧ (e.isRefusal = true → r.column = .error e)) ∨
    ∃ c placed m', r.column = .ok c ∧ (addVariable r).on m = (.ok m.columns.length, m') ∧
      m.Enlarged [placed] [] [] m' := by
  rcases hc : r.column with e | c
  · exact .inl ⟨e, Run.bind_error _ (by rw [hc]; exact Run.ofExcept_on _ m), fun _ => rfl⟩
  have hread : (addVariable r).on m = (do
      Run.ofExcept c.check
      putColumn c : Edit α ℕ).on m := Run.bind_ok _ (by rw [hc]; exact Run.ofExcept_on _ m)
  rw [hread]
  rcases hcheck : c.check with e | _
  · refine .inl ⟨e, Run.bind_error _ (Run.ofExcept_on _ m), fun he => ?_⟩
    rw [isRefusal_of_check hcheck] at he
    cases he
  · obtain ⟨placed, m', hput, hlarger⟩ := putColumn_enlarged c m
    exact .inr ⟨c, placed, m', rfl, (Run.bind_ok _ (Run.ofExcept_on _ m)).trans hput, hlarger⟩

/-- A family is added, or nothing is; or its keys cannot tell the members apart, and then its
columns stay all the same. -/
theorem addFamily_cases (axes : List (Datum α)) (r : Request α) (m : Stage α) :
    (∃ e, (addFamily axes r).on m = (.error e, m) ∧ (e.isRefusal = true →
      Datum.familyKeys axes = .error e ∨ ∃ keys,
      Datum.familyKeys axes = .ok keys ∧ r.columns keys = .error e)) ∨
    ∃ keys cs placed, Datum.familyKeys axes = .ok keys ∧ r.columns keys = .ok cs ∧
      placed.length = cs.length ∧
      ((∃ e m' unlisted, (addFamily axes r).on m = (.error e, m') ∧
        m.Enlarged placed unlisted [] m' ∧
          (e.isRefusal = true → e = .kind .number ∧
            (keys.all fun key => key.all Datum.isKey) = false)) ∨
        ∃ m', (addFamily axes r).on m = (.ok (List.range' m.columns.length cs.length), m') ∧
          m.Enlarged placed [] [] m' ∧
          (keys.all fun key => key.all Datum.isKey) = true) := by
  unfold addFamily
  rcases hkeys : Datum.familyKeys axes with e | keys
  · exact .inl ⟨e, Run.bind_error _ (Run.ofExcept_on _ m), fun _ => .inl rfl⟩
  rw [Run.bind_ok _ (Run.ofExcept_on _ m)]
  rcases hcs : r.columns keys with e | cs
  · exact .inl ⟨e, Run.bind_error _ (Run.ofExcept_on _ m), fun _ => .inr ⟨keys, rfl, hcs⟩⟩
  rw [Run.bind_ok _ (Run.ofExcept_on _ m)]
  rcases addColumns_cases cs m with ⟨e, hadd, he⟩ | ⟨placed, m', hadd, hlength, hlarger⟩
  · refine .inl ⟨e, Run.bind_error _ hadd, fun h => ?_⟩
    rw [he] at h
    cases h
  refine .inr ⟨keys, cs, placed, rfl, hcs, hlength, ?_⟩
  rw [Run.bind_ok _ hadd]
  have hunlisted := hlarger.trans (enlarged_unlisted m' (List.range' m.columns.length cs.length))
  rw [List.append_nil, List.append_nil, List.nil_append] at hunlisted
  dsimp only
  by_cases hkey : (keys.all fun key => key.all Datum.isKey) = true
  · rw [hkey]
    by_cases hrepeats : Datum.hasRepeats keys = true
    · rw [hrepeats]
      exact .inl ⟨.program .keys, _, _, rfl, hunlisted, nofun⟩
    · rw [Bool.not_eq_true] at hrepeats
      rw [hrepeats]
      exact .inr ⟨m', rfl, hlarger, rfl⟩
  · rw [Bool.not_eq_true] at hkey
    rw [hkey]
    exact .inl ⟨.kind .number, _, _, rfl, hunlisted, fun _ => ⟨rfl, rfl⟩⟩

/-! ### Local copies -/

omit [Scalar α] in
theorem asName_of_memberNames {name : Datum α} (h : Datum.memberNames keys name = .error e)
    (he : e.isRefusal = true) : name.asName = .error e := by
  cases name with
  | text name => cases h
  | list names =>
    rcases error_of_bind h with h | ⟨ds, -, h⟩
    · unfold Datum.forMembers at h
      dsimp only at h
      split_ifs at h
      obtain rfl := Except.error.inj h
      cases he
    · obtain ⟨d, -, hd⟩ := error_of_mapM h
      cases d <;> cases hd <;> rfl
  | _ =>
    cases h
    rfl

theorem length_columns {cs : List (Column α)} (h : r.columns keys = .ok cs) :
    cs.length = keys.length := by
  obtain ⟨lower, hlower, h⟩ := ok_of_bind h
  obtain ⟨lowers, hlowers, h⟩ := ok_of_bind h
  obtain ⟨upper, hupper, h⟩ := ok_of_bind h
  obtain ⟨uppers, huppers, h⟩ := ok_of_bind h
  obtain ⟨cost, hcost, h⟩ := ok_of_bind h
  obtain ⟨costs, hcosts, h⟩ := ok_of_bind h
  obtain ⟨names, hnames, h⟩ := ok_of_bind h
  obtain rfl := Except.ok.inj h
  rw [List.length_map, List.length_zip, List.length_zip, List.length_zip, length_memberNames hnames,
    ← (forall₂_of_mapM hlowers).length_eq, ← (forall₂_of_mapM huppers).length_eq,
    ← (forall₂_of_mapM hcosts).length_eq,
    length_forMembers hlower, length_forMembers hupper, length_forMembers hcost]
  simp

omit [Scalar α] [Numeral α] in
theorem copyName_ok {d d' : Datum α} (h : copyName d = .ok d') : ∃ name, d' = .text name := by
  unfold copyName at h
  rcases hname : d.asName with e | name <;> rw [hname] at h <;> cases h
  exact ⟨_, rfl⟩

omit [Scalar α] in
theorem isRefusal_of_ofWhole {n : ℤ} (h : (Datum.ofWhole n : Except (Fault α) α) = .error e) :
    e.isRefusal = false := by
  unfold Datum.ofWhole at h
  split at h <;> cases h
  rfl

theorem isRefusal_of_column {c : Column α} {name : Datum α} (hc : r.column = .ok c)
    (hname : copyName r.name = .ok name)
    (h : ({ r with name, cost := .int 0 } : Request α).column = .error e) :
    e.isRefusal = false := by
  obtain ⟨lower, hlower, hc⟩ := ok_of_bind hc
  obtain ⟨upper, hupper, -⟩ := ok_of_bind hc
  obtain ⟨name, rfl⟩ := copyName_ok hname
  rcases error_of_bind h with h | ⟨_, -, h⟩
  · cases hlower.symm.trans h
  rcases error_of_bind h with h | ⟨_, -, h⟩
  · cases hupper.symm.trans h
  rcases error_of_bind h with h | ⟨_, -, h⟩
  · exact isRefusal_of_ofWhole h
  · cases h

theorem isRefusal_of_columns {cs : List (Column α)} {name : Datum α} (hcs : r.columns keys = .ok cs)
    (hname : copyName r.name = .ok name)
    (h : ({ r with name, cost := .int 0 } : Request α).columns keys = .error e) :
    e.isRefusal = false := by
  obtain ⟨lower, hlower, hcs⟩ := ok_of_bind hcs
  obtain ⟨lowers, hlowers, hcs⟩ := ok_of_bind hcs
  obtain ⟨upper, hupper, hcs⟩ := ok_of_bind hcs
  obtain ⟨uppers, huppers, -⟩ := ok_of_bind hcs
  obtain ⟨name, rfl⟩ := copyName_ok hname
  rcases error_of_bind h with h | ⟨_, h', h⟩
  · cases hlower.symm.trans h
  obtain rfl := Except.ok.inj (hlower.symm.trans h')
  rcases error_of_bind h with h | ⟨_, -, h⟩
  · cases hlowers.symm.trans h
  rcases error_of_bind h with h | ⟨_, h', h⟩
  · cases hupper.symm.trans h
  obtain rfl := Except.ok.inj (hupper.symm.trans h')
  rcases error_of_bind h with h | ⟨_, -, h⟩
  · cases huppers.symm.trans h
  rcases error_of_bind h with h | ⟨costs, hcosts, h⟩
  · cases h
  rcases error_of_bind h with h | ⟨_, -, h⟩
  · obtain ⟨d, hd, h⟩ := error_of_mapM h
    obtain rfl := Except.ok.inj hcosts
    obtain ⟨key, -, rfl⟩ := List.mem_map.mp hd
    exact isRefusal_of_ofWhole h
  · cases h

/-! ### States -/

theorem enterStates_cases (states copies : List ℕ) (initial : Datum α) (m : Stage α) :
    (∃ e, (enterStates states copies initial).on m = (.error e, m) ∧
      m.checkInitials states initial = .error e) ∨
    ∃ m', (enterStates states copies initial).on m = (.ok (states, copies), m') := by
  unfold enterStates
  rw [Run.bind_ok _ (Run.get_on m)]
  rcases hinitial : m.checkInitials states initial with e | values
  · exact .inl ⟨e, Run.bind_error _ (Run.ofExcept_on _ m), rfl⟩
  · rw [Run.bind_ok _ (Run.ofExcept_on _ m)]
    exact .inr ⟨_, rfl⟩

/-- A state variable that is refused is not there, unless its limits are in order and its initial
value is not: then it stays, and so does its local copy. -/
theorem addStateVariable_refused {initial : Datum α}
    (h : (addStateVariable r initial).on m = (.error e, m')) (he : e.isRefusal = true) :
    m' = m ∨ ∃ state copy, m.Enlarged [state, copy] [] [] m' ∧
      m'.checkInitials [m.columns.length] initial = .error e := by
  unfold addStateVariable at h
  rcases Run.error_of_bind h with h | ⟨exceeds, _, h', h⟩
  · exact .inl (Prod.mk.inj h).2.symm
  obtain rfl := (Prod.mk.inj h').2
  rcases exceeds with _ | _
  swap
  · exact .inl (Prod.mk.inj h).2.symm
  change (do
      let state ← addVariable r
      let name ← Run.ofExcept (copyName r.name)
      let copy ← addVariable { r with name, cost := .int 0 }
      enterStates [state] [copy] initial : Edit α _).on _ = _ at h
  rcases addVariable_cases r m with ⟨e', hstate, -⟩ | ⟨c, state, m₁, hc, hstate, hlarger⟩
  · rw [Run.bind_error _ hstate] at h
    exact .inl (Prod.mk.inj h).2.symm
  rw [Run.bind_ok _ hstate] at h
  obtain ⟨name, hname⟩ : ∃ name, copyName r.name = .ok name := by
    obtain ⟨lower, -, hc⟩ := ok_of_bind hc
    obtain ⟨upper, -, hc⟩ := ok_of_bind hc
    obtain ⟨cost, -, hc⟩ := ok_of_bind hc
    obtain ⟨name, hname, -⟩ := ok_of_bind hc
    exact ⟨_, by rw [copyName, hname]; rfl⟩
  rw [hname, Run.bind_ok _ (Run.ofExcept_on _ m₁)] at h
  rcases addVariable_cases { r with name, cost := .int 0 } m₁ with ⟨e', hcopy, hcause⟩ | ⟨_, copy,
    m₂, -, hcopy, hlarger'⟩
  · rw [Run.bind_error _ hcopy] at h
    obtain rfl := Except.error.inj (Prod.mk.inj h).1
    rw [isRefusal_of_column hc hname (hcause he)] at he
    cases he
  rw [Run.bind_ok _ hcopy] at h
  rcases enterStates_cases [m.columns.length]
    [m₁.columns.length] initial m₂ with ⟨e', henter, hinitial⟩ | ⟨m₃, henter⟩
  · obtain ⟨he', rfl⟩ := Prod.mk.inj (henter.symm.trans h)
    obtain rfl := Except.error.inj he'
    exact .inr ⟨state, copy, hlarger.trans hlarger', hinitial⟩
  · cases henter.symm.trans h

theorem addCopies_cases {axes : List (Datum α)} {cs : List (Column α)} {name : Datum α}
    (hkeys : Datum.familyKeys axes = .ok keys) (hcs : r.columns keys = .ok cs)
    (hall : (keys.all fun key => key.all Datum.isKey) = true) (hname : copyName r.name = .ok name)
    (m : Stage α) :
    (∃ e m', (addFamily axes { r with name, cost := .int 0 }).on m = (.error e, m') ∧
      e.isRefusal = false) ∨
    ∃ copies m', (addFamily axes { r with name, cost := .int 0 }).on m =
      (.ok (List.range' m.columns.length cs.length), m') ∧
      copies.length = cs.length ∧ m.Enlarged copies [] [] m' := by
  rcases addFamily_cases axes { r with name, cost := .int 0 } m with
    ⟨e, hcopies, hcause⟩ | ⟨keys', cs', copies, hkeys', hcs', hlength,
    ⟨e, m', unlisted, hcopies, -, hcause⟩ |
      ⟨m', hcopies, hlarger, -⟩⟩
  · refine .inl ⟨e, m, hcopies, Bool.eq_false_iff.mpr fun he => ?_⟩
    rcases hcause he with hbad | ⟨keys', hkeys', hbad⟩
    · cases hkeys.symm.trans hbad
    · obtain rfl := Except.ok.inj (hkeys.symm.trans hkeys')
      rw [isRefusal_of_columns hcs hname hbad] at he
      cases he
  · obtain rfl := Except.ok.inj (hkeys.symm.trans hkeys')
    refine .inl ⟨e, m', hcopies, Bool.eq_false_iff.mpr fun he => ?_⟩
    cases hall.symm.trans (hcause he).2
  · obtain rfl := Except.ok.inj (hkeys.symm.trans hkeys')
    have hsame : cs'.length = cs.length := by rw [length_columns hcs, length_columns hcs']
    exact .inr ⟨copies, m', hsame ▸ hcopies, hlength.trans hsame, hlarger⟩

/-- A family of state variables that is refused is not there, unless its limits are in order and its
initial values are not: then it stays, and so do its local copies. The family alone stays where its
keys cannot be looked up, or where it has a list of names, to which the names of local copies cannot
be traced. -/
theorem addStateFamily_refused {axes : List (Datum α)} {initial : Datum α}
    (h : (addStateFamily axes r initial).on m = (.error e, m')) (he : e.isRefusal = true) :
    m' = m ∨
    (∃ states copies, states.length = copies.length ∧ m.Enlarged (states ++ copies) [] [] m' ∧
      m'.checkInitials (List.range' m.columns.length states.length) initial = .error e) ∨
    ∃ family unlisted, m.Enlarged family unlisted [] m' ∧ e = .kind .number ∧
      (copyName r.name = .error e ∨ ∃ keys, Datum.familyKeys axes = .ok keys ∧
        (keys.all fun key => key.all Datum.isKey) = false) := by
  unfold addStateFamily at h
  rcases Run.error_of_bind h with h | ⟨below, _, h', h⟩
  · exact .inl (Prod.mk.inj h).2.symm
  obtain rfl := (Prod.mk.inj h').2
  rcases below with _ | _
  · exact .inl (Prod.mk.inj h).2.symm
  change (do
      let states ← addFamily axes r
      let name ← Run.ofExcept (copyName r.name)
      let copies ← addFamily axes { r with name, cost := .int 0 }
      enterStates states copies initial : Edit α _).on _ = _ at h
  rcases addFamily_cases axes r m with
    ⟨e', hstates, -⟩ | ⟨keys, cs, states, hkeys, hcs, hlength,
    ⟨e', m₁, unlisted, hstates, hlarger, hcause⟩ |
      ⟨m₁, hstates, hlarger, hall⟩⟩
  · rw [Run.bind_error _ hstates] at h
    exact .inl (Prod.mk.inj h).2.symm
  · rw [Run.bind_error _ hstates] at h
    obtain ⟨he', rfl⟩ := Prod.mk.inj h
    obtain rfl := Except.error.inj he'
    obtain ⟨hkind, hall⟩ := hcause he
    exact .inr (.inr ⟨states, unlisted, hlarger, hkind, .inr ⟨keys, hkeys, hall⟩⟩)
  rw [Run.bind_ok _ hstates] at h
  rcases hname : copyName r.name with e' | name
  · rw [hname, Run.bind_error _ (Run.ofExcept_on _ m₁)] at h
    obtain ⟨he', rfl⟩ := Prod.mk.inj h
    obtain rfl := Except.error.inj he'
    refine .inr (.inr ⟨states, [], hlarger, ?_, .inl rfl⟩)
    unfold copyName Datum.asName at hname
    split at hname <;> cases hname
    rfl
  rw [hname, Run.bind_ok _ (Run.ofExcept_on _ m₁)] at h
  rcases addCopies_cases hkeys hcs hall hname m₁ with ⟨e', m₂, hcopies, hcause⟩ | ⟨copies, m₂,
    hcopies, hlength', hlarger'⟩
  · rw [Run.bind_error _ hcopies] at h
    obtain rfl := Except.error.inj (Prod.mk.inj h).1
    rw [hcause] at he
    cases he
  rw [Run.bind_ok _ hcopies] at h
  rcases enterStates_cases (List.range' m.columns.length cs.length)
    (List.range' m₁.columns.length cs.length) initial m₂
    with ⟨e', henter, hinitial⟩ | ⟨m₃, henter⟩
  · obtain ⟨he', rfl⟩ := Prod.mk.inj (henter.symm.trans h)
    obtain rfl := Except.error.inj he'
    exact .inr (.inl ⟨states, copies, hlength.trans hlength'.symm, hlarger.trans hlarger',
      hlength ▸ hinitial⟩)
  · cases henter.symm.trans h

/-! ### Samples -/

omit [Scalar α] [Numeral α] in
theorem checkSampleCount_refused {samples : Grid α} {count : ℕ}
    (h : (checkSampleCount samples count).on m = (.error e, m')) : m' = m := by
  simp only [Run.on, checkSampleCount] at h
  split_ifs at h <;> cases h <;> rfl

omit [Scalar α] [Numeral α] in
theorem checkBlock_refused {samples : Grid α} {width : ℕ}
    (h : (checkBlock samples width).on m = (.error e, m')) :
    m' = m := by
  unfold checkBlock at h
  split at h
  · split_ifs at h
    · cases h
      rfl
    · rcases Run.error_of_bind h with h | ⟨_, _, -, h⟩
      · exact checkSampleCount_refused h
      · cases h
  · cases h
    rfl

theorem checkSamples_refused {d : Datum α} (h : (checkSamples d).on m = (.error e, m')) :
    m' = m := by
  unfold checkSamples at h
  split at h
  · rcases Run.error_of_bind h with h | ⟨g, _, h', h⟩
    · exact (Prod.mk.inj h).2.symm
    obtain rfl := (Prod.mk.inj h').2
    split at h
    · rcases Run.error_of_bind h with h | ⟨_, _, -, h⟩
      · exact checkSampleCount_refused h
      · cases h
    · cases h
      rfl
  · cases h
    rfl
  · cases h
    rfl

/-- A model whose first samples may have fixed the number of its scenarios. -/
structure Counted (m m' : Stage α) : Prop where
  frame : m' = { m with sampleCount := m'.sampleCount }
  fixed : m.random ≠ [] → m'.sampleCount = m.sampleCount

omit [Scalar α] [Numeral α] in
theorem Counted.refl (m : Stage α) : m.Counted m := ⟨rfl, fun _ => rfl⟩

omit [Scalar α] [Numeral α] in
theorem Counted.recount (m m' : Stage α) (n : ℕ) (_ : n ≠ 0) (hrandom : m'.random = [])
    (h : m.Counted m') : m.Counted { m' with sampleCount := n } where
  frame := by rw [h.frame]
  fixed := fun hne => by
    rw [h.frame] at hrandom
    exact absurd hrandom hne

/-! ### Constraints, noise, probabilities -/

/-- An operation that may fail, but not as a refused call. -/
def Unrefused {β : Type} (act : Edit α β) : Prop :=
  ∀ ⦃m m' : Stage α⦄ ⦃e : Fault α⦄, act.on m = (.error e, m') → e.isRefusal = false

omit [Scalar α] [Numeral α] in
theorem Unrefused.bind {x : Edit α β} {f : β → Edit α γ} (hx : Unrefused x)
    (hf : ∀ b, Unrefused (f b)) :
    Unrefused (x >>= f) := by
  intro m m' e h
  rcases Run.error_of_bind h with h | ⟨b, _, -, h⟩
  · exact hx h
  · exact hf b h

omit [Scalar α] [Numeral α] in
theorem Unrefused.mapM {f : β → Edit α γ} {xs : List β} (hf : ∀ x, Unrefused (f x)) :
    Unrefused (xs.mapM f) := by
  induction xs with
  | nil =>
    intro m m' e h
    cases h
  | cons x xs ih =>
    rw [List.mapM_cons]
    refine (hf x).bind fun y => ih.bind fun ys m m' e h => ?_
    cases h

omit [Numeral α] in
theorem unrefused_addColumns (cs : List (Column α)) : Unrefused (addColumns cs) := by
  intro m m' e h
  rcases addColumns_cases cs m with ⟨e', hrun, he'⟩ | ⟨_, _, hrun, -⟩
  · obtain rfl := Except.error.inj (Prod.mk.inj (hrun.symm.trans h)).1
    exact he'
  · cases hrun.symm.trans h

omit [Numeral α] in
theorem unrefused_addRow (name : String) (terms : List (ℕ × α)) (relation : Relation) (rhs : α) :
    Unrefused (addRow name terms relation rhs) := by
  intro m m' e h
  rcases addRow_cases name terms relation rhs m with ⟨e', hrun, he'⟩ | ⟨_, _, hrun, -⟩
  · obtain rfl := Except.error.inj (Prod.mk.inj (hrun.symm.trans h)).1
    exact he'
  · cases hrun.symm.trans h

omit [Numeral α] in
theorem unrefused_addCombination (name : String) (column : ℕ) (past : List ℕ) (line : List α) :
    Unrefused (addCombination name column past line) := by
  refine Unrefused.bind (fun m m' e h => ?_) fun terms => unrefused_addRow _ _ _ _
  obtain rfl | rfl : e = .program .lengths ∨ e = .program .number := by
    have hterms := (Prod.mk.inj h).1
    unfold linearTerms at hterms
    split_ifs at hterms
    · exact .inl (Except.error.inj hterms).symm
    · exact .inr (Except.error.inj hterms).symm
  · rfl
  · rfl

omit [Numeral α] in
theorem unrefused_setObjective (terms : List (ℕ × α)) (constant : α) :
    Unrefused (setObjective terms constant) := by
  intro m m' e h
  unfold setObjective at h
  split_ifs at h
  · obtain rfl := Except.error.inj (Prod.mk.inj h).1
    rfl
  · cases h

omit [Scalar α] [Numeral α] in
theorem unrefused_setSenseFrom (d : Datum α) : Unrefused (setSenseFrom d) := by
  intro m m' e h
  unfold setSenseFrom at h
  split at h
  · obtain ⟨status, solution, hrun⟩ := setSense_on _ m
    cases hrun.symm.trans h
  · obtain rfl := Except.error.inj (Prod.mk.inj h).1
    rfl

omit [Scalar α] [Numeral α] in
theorem Unrefused.error {β : Type} {act : Edit α β} (hact : Unrefused act)
    (he : e.isRefusal = true) :
    act.on m ≠ (.error e, m') := by
  intro h
  rw [hact h] at he
  cases he

/-- A constraint is refused before the model is touched, unless its name is no text: then its
samples may be counted already. -/
theorem addConstraint_refused {c : Constraint α} {name : Datum α} {uncertainty : Option (Datum α)}
    (h : (addConstraint c name uncertainty).on m = (.error e, m')) (he : e.isRefusal = true) :
    m' = m ∨ name.asName = .error e ∧ m.Counted m' := by
  have hrow (name : String) : Unrefused (addConstraintRow c name) := unrefused_addRow _ _ _ _
  cases uncertainty with
  | none =>
    rcases Run.error_of_bind h with h | ⟨name, _, -, h⟩
    · exact .inl (Prod.mk.inj h).2.symm
    · exact absurd h ((hrow name).error he)
  | some u =>
    rcases Run.error_of_bind h with h | ⟨samples, m₁, hcheck, h⟩
    · exact .inl (checkSamples_refused h)
    have hcounted := ((checkSamples_triple (Counted.recount m) u m (.refl m)).1 samples m₁ hcheck).1
    rcases Run.error_of_bind h with h | ⟨name, _, -, h⟩
    · obtain ⟨hname, rfl⟩ := Prod.mk.inj h
      exact .inr ⟨hname, hcounted⟩
    rcases Run.error_of_bind h with h | ⟨id, _, -, h⟩
    · exact absurd h ((hrow name).error he)
    · cases h

/-- A block of constraints that is refused is taken back, if all of them could be read. -/
theorem addConstraints_refused (hrows : ∀ r ∈ m.rows, r.id < m.issued)
    {cs : List (Except (Fault α) (Constraint α))} {name : Datum α} {uncertainty : Option (Datum α)}
    (h : (addConstraints cs name uncertainty).on m = (.error e, m')) (he : e.isRefusal = true) :
    m.Enlarged [] [] [] m' ∨ .error e ∈ cs ∧ ∃ rows, m.Enlarged [] [] rows m' := by
  rcases addBlock_cases cs name m with ⟨e', hblock⟩ | ⟨e', rows, m₁, hblock, hlarger, hcause⟩ |
    ⟨ids, rows, m₁, hblock, hlarger, hids, hfresh⟩
  · obtain rfl := (Prod.mk.inj ((Run.bind_error _ hblock).symm.trans h)).2
    exact .inl (.refl m)
  · obtain ⟨he', rfl⟩ := Prod.mk.inj ((Run.bind_error _ hblock).symm.trans h)
    obtain rfl := Except.error.inj he'
    exact .inr ⟨hcause he, rows, hlarger⟩
  replace h := (Run.bind_ok _ hblock).symm.trans h
  cases uncertainty with
  | none => cases h
  | some u =>
    left
    set enter : Edit α (List ℕ) := do
      let samples ← checkBlock (← Run.ofExcept (scenarios u)) ids.length
      assign (.block ids samples)
      return ids with henter
    rcases hrun : enter.on m₁ with ⟨e' | _, m₂⟩
    · -- what is taken back is the block, since nothing else was added
      have hkept : m₂ = m₁ := by
        rw [henter] at hrun
        rcases Run.error_of_bind hrun with hrun | ⟨samples, _, h', hrun⟩
        · exact (Prod.mk.inj hrun).2.symm
        obtain rfl := (Prod.mk.inj h').2
        rcases Run.error_of_bind hrun with hrun | ⟨_, _, -, hrun⟩
        · exact checkBlock_refused hrun
        · cases hrun
      subst hkept
      replace h := (Run.tryCatch_error _ hrun).symm.trans h
      have hremoved := hlarger.removed hrows hids hfresh
      obtain ⟨status, solution, hremove⟩ := removeRows_on ids m₂
      rw [hremove] at hremoved
      cases e'
      case overflow =>
        obtain rfl := Except.error.inj (Prod.mk.inj h).1
        cases he
      all_goals
        obtain rfl := (Prod.mk.inj ((Run.bind_ok _ hremove).symm.trans h)).2
        exact hremoved
    · cases (Run.tryCatch_ok _ hrun).symm.trans h

theorem addFree_cases (n : ℕ) (name : Datum α) (m : Stage α) :
    (∃ e, (addFree n name).on m = (.error e, m) ∧ (e.isRefusal = true → name.asName = .error e)) ∨
    ∃ columns placed m', (addFree n name).on m = (.ok columns, m') ∧ m.Enlarged placed [] [] m' ∧
      ∀ e, name.asName = .error e → ∃ names, name = .list names := by
  unfold addFree
  dsimp only
  rcases hnames : Datum.memberNames ((List.range n).map fun (i : ℕ) => [Datum.int i]) name
    with e | names
  · refine .inl ⟨e, Run.bind_error _ (Run.ofExcept_on _ m), fun he => ?_⟩
    exact asName_of_memberNames hnames he
  rw [Run.bind_ok _ (Run.ofExcept_on _ m)]
  rcases addColumns_cases (names.map fun name => (⟨name, .below, .above, 0⟩ : Column α)) m with
    ⟨e, hrun, he⟩ | ⟨placed, m', hrun, -, hlarger⟩
  · refine .inl ⟨e, hrun, fun he' => ?_⟩
    rw [he] at he'
    cases he'
  · refine .inr ⟨_, placed, m', hrun, hlarger, fun e he => ?_⟩
    cases name with
    | text name => cases he
    | list names => exact ⟨names, rfl⟩
    | _ => cases hnames

/-- Noise is refused before the model is touched, unless its name is no text: then its samples may
be counted already, and its columns stay if it has a list of names. -/
theorem addLaggedNoise_refused {innovations : Datum α} {coefficients : Option (Datum α)}
    {name : Datum α} (h : (addLaggedNoise innovations coefficients name).on m = (.error e, m'))
    (he : e.isRefusal = true) :
    m' = m ∨ name.asName = .error e ∧ ∃ m₁ family, m.Counted m₁ ∧ m₁.Enlarged family [] [] m' ∧
      (family ≠ [] → ∃ names, name = .list names) := by
  have hrest (width : ℕ) (matrix samples : List (List α)) (noise : List ℕ) (name : String) :
      Unrefused (do
        let past ← addFree width (.text (name ++ "_past"))
        let ids ← (noise.zip matrix).zipIdx.mapM fun x =>
          addCombination (name ++ "_AR1[" ++ toString x.2 ++ "]") x.1.1 past x.1.2
        assign (.block ids samples)
        modify fun s => { s with noise, noiseCopies := past, coefficients := some matrix }
        return (noise, past) : Edit α _) := by
    refine Unrefused.bind (unrefused_addColumns _) fun past =>
      Unrefused.bind (.mapM fun x => ?_) fun ids => ?_
    · exact unrefused_addCombination _ _ _ _
    · intro m m' e h
      cases h
  unfold addLaggedNoise at h
  rw [Run.bind_ok _ (Run.get_on m)] at h
  dsimp only at h
  split_ifs at h
  · exact .inl (Prod.mk.inj h).2.symm
  rcases Run.error_of_bind h with h | ⟨rows, _, h', h⟩
  · exact .inl (Prod.mk.inj h).2.symm
  obtain rfl := (Prod.mk.inj h').2
  rcases Run.error_of_bind h with h | ⟨matrix, _, h', h⟩
  · exact .inl (Prod.mk.inj h).2.symm
  obtain rfl := (Prod.mk.inj h').2
  rcases Run.error_of_bind h with h | ⟨samples, m₁, hcheck, h⟩
  · exact .inl (checkBlock_refused h)
  have hcounted := ((checkBlock_triple (Counted.recount m) _ _ m (.refl m)).1 samples m₁ hcheck).1
  rcases addFree_cases rows.1 name m₁ with
    ⟨e', hnoise, hname⟩ | ⟨noise, placed, m₂, hnoise, hlarger, hname⟩
  · obtain ⟨he', rfl⟩ := Prod.mk.inj ((Run.bind_error _ hnoise).symm.trans h)
    obtain rfl := Except.error.inj he'
    exact .inr ⟨hname he, m₁, [], hcounted, .refl m₁, fun hne => absurd rfl hne⟩
  rw [Run.bind_ok _ hnoise] at h
  rcases Run.error_of_bind h with h | ⟨name, _, -, h⟩
  · obtain ⟨hbad, rfl⟩ := Prod.mk.inj h
    exact .inr ⟨hbad, m₁, placed, hcounted, hlarger, fun _ => hname e hbad⟩
  · exact absurd h ((hrest _ _ _ _ _).error he)

/-- Probabilities are refused before the model is touched. -/
theorem setProbability_refused {d : Datum α} (h : (setProbability d).on m = (.error e, m')) :
    m' = m :=
  (setProbability_triple (I := (· = m)) (Q := fun _ => True) d
    (fun _ _ _ _ _ _ => trivial) m rfl).2 e m' h

/-! ### All calls -/

omit [Numeral α] in
theorem numbered_lasting : Lasting fun m : Stage α => ∀ r ∈ m.rows, r.id < m.issued where
  putColumn := fun _ => Keeps.iff_on.mpr fun _ hm => hm
  unlist := fun _ _ hm => hm
  putRow := by
    refine fun name terms relation rhs => Keeps.iff_on.mpr fun m hm r hr => ?_
    rcases List.mem_append.mp hr with hr | hr
    · exact (hm r hr).trans (Nat.lt_succ_self _)
    · rw [List.mem_singleton.mp hr]
      exact Nat.lt_succ_self _
  removeRows := by
    refine fun ids => Keeps.iff_on.mpr fun m hm => ?_
    obtain ⟨status, solution, hrun⟩ := removeRows_on ids m
    rw [hrun]
    exact fun r hr => hm r (List.mem_filter.mp hr).1
  states := fun _ _ _ _ hm => hm
  count := fun _ _ _ _ hm => hm
  random := fun _ _ _ _ hm => hm
  noise := fun _ _ _ _ _ _ hm => hm
  objective := by
    intro terms constant
    unfold setObjective
    split_ifs
    · exact Triple.throw_bind fun _ hm => hm
    · exact Triple.modify fun _ hm => hm
  sense := by
    refine fun sense => Keeps.iff_on.mpr fun m hm => ?_
    obtain ⟨status, solution, hrun⟩ := setSense_on sense m
    rw [hrun]
    exact hm

theorem numbered_build (name : String) (stage markovState : Datum α) (sense : Sense)
    (steps : List (BuildStep α)) :
    ∀ r ∈ (build steps (empty name stage markovState sense)).rows,
      r.id < (build steps (empty name stage markovState sense)).issued :=
  numbered_lasting.build (fun _ _ hm => hm) steps (by simp [empty])

namespace BuildStep

def initial? : BuildStep α → Option (Datum α)
  | .state _ initial | .states _ _ initial => some initial
  | _ => none

def family? : BuildStep α → Option (List (Datum α) × Request α)
  | .columns axes r | .states axes r _ => some (axes, r)
  | _ => none

def block : BuildStep α → List (Except (Fault α) (Constraint α))
  | .rows cs _ _ => cs
  | _ => []

/-- The name that a call takes after it has looked at samples. -/
def lateName? : BuildStep α → Option (Datum α)
  | .row _ name _ | .noise _ _ name => some name
  | _ => none

end BuildStep

/-- A call that is refused leaves the program and all that is said of states, noise, samples and
probabilities as they were. There are four exceptions. Where the initial values of states are
refused, the columns of the states and of their local copies stay; where the keys or the names of a
family are of the wrong kind, the columns of the family stay; and where the constraints of a block
cannot all be read, the rows of those before stay; and where the name of a constraint or of noise is
no text, its samples may be counted already, and the columns of noise that has a list of names
stay. -/
theorem leftover_of_refusal {step : BuildStep α} (hrows : ∀ r ∈ m.rows, r.id < m.issued)
    (h : step.run.on m = (.error e, m')) (he : e.isRefusal = true) :
    m.Enlarged [] [] [] m' ∨
    (∃ initial states copies, step.initial? = some initial ∧ states.length = copies.length ∧
      m.Enlarged (states ++ copies) [] [] m' ∧
      m'.checkInitials (List.range' m.columns.length states.length) initial = .error e) ∨
    (∃ axes r family unlisted, step.family? = some (axes, r) ∧ m.Enlarged family unlisted [] m' ∧
      e = .kind .number ∧
      (copyName r.name = .error e ∨ ∃ keys, Datum.familyKeys axes = .ok keys ∧
        (keys.all fun key => key.all Datum.isKey) = false)) ∨
    (∃ rows, .error e ∈ step.block ∧ m.Enlarged [] [] rows m') ∨
    ∃ name m₁ family, step.lateName? = some name ∧ name.asName = .error e ∧ m.Counted m₁ ∧
      m₁.Enlarged family [] [] m' ∧
      (family ≠ [] → ∃ innovations coefficients names,
        step = .noise innovations coefficients (.list names)) := by
  have hsame (heq : m' = m) : m.Enlarged [] [] [] m' := heq ▸ .refl m
  have hcall {β : Type} {act : Edit α β}
      (h : (do let _ ← act : Edit α Unit).on m = (.error e, m')) :
      act.on m = (.error e, m') := by
    rcases Run.error_of_bind h with h | ⟨_, _, -, h⟩
    · exact h
    · cases h
  cases step with
  | column r =>
    rcases addVariable_cases r m with ⟨e', hrun, -⟩ | ⟨_, _, _, -, hrun, -⟩
    · exact .inl (hsame (Prod.mk.inj (hrun.symm.trans (hcall h))).2.symm)
    · cases hrun.symm.trans (hcall h)
  | columns axes r =>
    rcases addFamily_cases axes r m with
      ⟨e', hrun, -⟩ | ⟨keys, cs, family, hkeys, -, -,
      ⟨e', m₁, unlisted, hrun, hlarger, hcause⟩ | ⟨_, hrun, -⟩⟩
    · exact .inl (hsame (Prod.mk.inj (hrun.symm.trans (hcall h))).2.symm)
    · obtain ⟨he', rfl⟩ := Prod.mk.inj (hrun.symm.trans (hcall h))
      obtain rfl := Except.error.inj he'
      obtain ⟨hkind, hall⟩ := hcause he
      exact .inr
        (.inr (.inl ⟨axes, r, family, unlisted, rfl, hlarger, hkind, .inr ⟨keys, hkeys, hall⟩⟩))
    · cases hrun.symm.trans (hcall h)
  | state r initial =>
    rcases addStateVariable_refused (hcall h) he with heq | ⟨state, copy, hlarger, hinitial⟩
    · exact .inl (hsame heq)
    · exact .inr (.inl ⟨initial, [state], [copy], rfl, rfl, hlarger, hinitial⟩)
  | states axes r initial =>
    rcases addStateFamily_refused (hcall h) he with
      heq | ⟨states, copies, hlength, hlarger, hinitial⟩ | ⟨family, unlisted, hlarger,
      hkind, hcause⟩
    · exact .inl (hsame heq)
    · exact .inr (.inl ⟨initial, states, copies, rfl, hlength, hlarger, hinitial⟩)
    · exact .inr (.inr (.inl ⟨axes, r, family, unlisted, rfl, hlarger, hkind, hcause⟩))
  | row c name uncertainty =>
    rcases addConstraint_refused (hcall h) he with heq | ⟨hname, hcounted⟩
    · exact .inl (hsame heq)
    · exact .inr (.inr (.inr (.inr
        ⟨name, m', [], rfl, hname, hcounted, .refl m', fun hne => absurd rfl hne⟩)))
  | rows cs name uncertainty =>
    rcases addConstraints_refused hrows (hcall h) he with hlarger | ⟨hcs, rows, hlarger⟩
    · exact .inl hlarger
    · exact .inr (.inr (.inr (.inl ⟨rows, hcs, hlarger⟩)))
  | noise innovations coefficients name =>
    rcases addLaggedNoise_refused (hcall h) he with
      heq | ⟨hname, m₁, family, hcounted, hlarger, hlist⟩
    · exact .inl (hsame heq)
    refine .inr
      (.inr (.inr (.inr ⟨name, m₁, family, rfl, hname, hcounted, hlarger, fun hne => ?_⟩)))
    obtain ⟨names, rfl⟩ := hlist hne
    exact ⟨innovations, coefficients, names, rfl⟩
  | objective terms constant => cases (unrefused_setObjective terms constant h).symm.trans he
  | sense d => cases (unrefused_setSenseFrom d h).symm.trans he
  | probability d => exact .inl (hsame (setProbability_refused h))

def tankRequest : Request ℚ :=
  { name := .text "tank", lower := .int 0, upper := .int 1, cost := .int 0 }

/-- The tank is added with half a unit in it, then an inflow with samples that do not agree in
length. -/
def raggedInflow : BuildStep ℚ :=
  .rows [.ok ⟨[(0, 1)], 0, .atMost, 0⟩] (.text "inflow")
    (some (.list [.list [.int 1], .list [.int 1, .int 2]]))

theorem leftover_of_refusal_raggedInflow :
    let m := build [.state tankRequest (.real (1 / 2))] (empty "stage" .null .null .minimize)
    ∃ e m', raggedInflow.run.on m = (.error e, m') ∧ e.isRefusal = true ∧ m.Enlarged [] [] [] m' ∧
    m'.issued = 1 := by
  intro m
  have hrefused : (match (raggedInflow.run.on m).1 with
      | .error e => e.isRefusal
      | .ok _ => false) = true ∧ (raggedInflow.run.on m).2.issued = 1 := by decide +kernel
  rcases hrun : raggedInflow.run.on m with ⟨e | _, m'⟩
  · rw [hrun] at hrefused
    refine ⟨e, m', rfl, hrefused.1, ?_, hrefused.2⟩
    rcases leftover_of_refusal (numbered_build _ _ _ _ _) hrun hrefused.1 with
      hlarger | ⟨_, _, _, hstep, -⟩ | ⟨_, _, _, _, hstep, -⟩ | ⟨_, hstep, -⟩ | ⟨_, _, _, hstep, -⟩
    · exact hlarger
    · cases hstep
    · cases hstep
    · simp [raggedInflow, BuildStep.block] at hstep
    · cases hstep
  · rw [hrun] at hrefused
    exact absurd hrefused.1 Bool.false_ne_true

/-- A tank that is to hold two units to begin with is refused, and stays. -/
theorem overfull_refused : ∃ e m',
    (BuildStep.state tankRequest (.int 2)).run.on
    (empty "stage" .null .null .minimize) = (.error e, m') ∧
      e.isRefusal = true ∧ m'.columns.map Column.name = ["tank", "tank_local_copy"] ∧
      m'.states = [] := by
  have hrefused : (match ((BuildStep.state tankRequest (.int 2)).run.on
      (empty "stage" .null .null .minimize)).1 with
      | .error e => e.isRefusal
      | .ok _ => false) = true := by decide +kernel
  have hcolumns : ((BuildStep.state tankRequest (.int 2)).after
      (empty "stage" .null .null .minimize)).columns.map
      Column.name = ["tank", "tank_local_copy"] := by decide +kernel
  have hstates : ((BuildStep.state tankRequest (.int 2)).after
      (empty "stage" .null .null .minimize)).states = [] := by
    decide +kernel
  unfold BuildStep.after at hcolumns hstates
  rcases hrun : (BuildStep.state tankRequest (.int 2)).run.on
    (empty "stage" .null .null .minimize) with ⟨e | _, m'⟩
  · rw [hrun] at hrefused hcolumns hstates
    exact ⟨e, m', rfl, hrefused, hcolumns, hstates⟩
  · rw [hrun] at hrefused
    exact absurd hrefused Bool.false_ne_true

end Stage

end Recourse
