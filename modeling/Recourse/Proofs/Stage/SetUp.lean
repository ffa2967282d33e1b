import Recourse.Proofs.Stage.Operations

/-! Joining a model: what setting up its cost-to-go and its links makes of the model as it was
written. Rows are only added, under the identifiers that come next, so the links are known
beforehand. -/

namespace Recourse

open Run (Triple)

variable {α : Type}

/-! ### Rows that are added -/

/-- A model after rows were added under the identifiers that come next. -/
structure Grown (s : Stage α) (news : List (Row α)) (s' : Stage α) : Prop where
  frame : s' = { s with
    rows := s.rows ++ news
    issued := s.issued + news.length
    status := s'.status
    solution := s'.solution }
  ids : news.map (·.id) = List.range' s.issued news.length

theorem Grown.refl (s : Stage α) : Grown s [] s where
  frame := by simp
  ids := rfl

theorem Grown.issued {s s' : Stage α} {news : List (Row α)} (h : Grown s news s') :
    s'.issued = s.issued + news.length := by
  rw [h.frame]

def Row.Sets [One α] (column : ℕ) (r : Row α) : Prop :=
  r.terms = [(column, 1)] ∧ r.relation = .equal

variable [Field α] [LinearOrder α] {s : Stage α} {news : List (Row α)}

theorem addRow_triple (name : String) (terms : List (ℕ × α)) (relation : Relation) (rhs : α) :
    Triple (Grown s news) (Stage.addRow name terms relation rhs)
      (fun id s' => id = s.issued + news.length ∧
        ∃ name, Grown s (news ++ [⟨id, name, terms, relation, rhs⟩]) s')
      fun _ => True := by
  have hput (name : String) : Triple (Grown s news) (Stage.putRow name terms relation rhs)
      (fun id s' => id = s.issued + news.length ∧
        ∃ name, Grown s (news ++ [⟨id, name, terms, relation, rhs⟩]) s') fun _ => True := by
    intro s' hs'
    refine ⟨fun id s'' hrun => ?_, fun _ _ _ => trivial⟩
    obtain ⟨hid, rfl⟩ := Prod.mk.inj hrun
    obtain rfl : s'.issued = id := Except.ok.inj hid
    refine ⟨hs'.issued, if name.isEmpty then "R" ++ toString s'.issued else name, ?_, ?_⟩
    · rw [hs'.frame]
      simp [Stage.discard, add_assoc]
    · rw [hs'.issued, List.map_append, hs'.ids]
      simp [List.range'_concat]
  unfold Stage.addRow
  split_ifs <;> first | exact Triple.throw_bind fun _ _ => trivial | exact hput name

theorem setRows_triple (columns : List ℕ) (label : ℕ → String) :
    Triple (Grown s news)
      (columns.mapM fun column => Stage.addRow (label column) [(column, 1)] .equal 0)
      (fun ids s' => ids = List.range' (s.issued + news.length) columns.length ∧
        ∃ more, Grown s (news ++ more) s' ∧ List.Forall₂ Row.Sets columns more)
      fun _ => True := by
  induction columns generalizing news with
  | nil => exact Triple.pure fun s' hs' => ⟨rfl, [], by rwa [List.append_nil], .nil⟩
  | cons column columns ih =>
    rw [List.mapM_cons]
    refine Triple.bind (addRow_triple _ _ _ _) fun id s' hs' => ?_
    obtain ⟨rfl, name, hs'⟩ := hs'
    refine Triple.bind ih (fun ids => Triple.pure ?_) s' hs'
    rintro s'' ⟨rfl, more, hs'', hmore⟩
    rw [List.append_assoc] at hs''
    exact ⟨by simp [List.range'_succ, add_assoc], _, hs'', .cons ⟨rfl, rfl⟩ hmore⟩

theorem addLinks_triple (columns : List ℕ) (name : String) :
    Triple (Grown s news) (Stage.addLinks columns name)
      (fun ids s' => ids = List.range' (s.issued + news.length) columns.length ∧
        ∃ more, Grown s (news ++ more) s' ∧ List.Forall₂ Row.Sets columns more)
      fun _ => True :=
  Triple.get_bind fun t ht s' hs' =>
    setRows_triple columns (fun column => Stage.memberName name (t.columnLabel column)) s'
      (hs' ▸ ht)

def Row.Fixes [Numeral α] (cd : ℕ × Datum α) (r : Row α) : Prop :=
  r.Sets cd.1 ∧ cd.2.isNull = false ∧ cd.2.asNumber = .ok r.rhs

theorem fixInitial_triple [Numeral α] (pairs : List (ℕ × Datum α)) :
    Triple (Grown s news) (Stage.fixInitial pairs)
      (fun _ s' => ∃ more, Grown s (news ++ more) s' ∧ (∀ r ∈ more, ∃ cd ∈ pairs, r.Fixes cd) ∧
        ∀ cd ∈ pairs, cd.2.isNull = false → ∃ r ∈ more, r.Fixes cd) fun _ => True := by
  induction pairs generalizing news with
  | nil => exact Triple.pure fun s' hs' => ⟨[], by rwa [List.append_nil], by simp, by simp⟩
  | cons cd pairs ih =>
    obtain ⟨column, d⟩ := cd
    rw [Stage.fixInitial]
    cases hnull : d.isNull with
    | true =>
      refine ih.conseq (fun _ hs' => hs') (fun _ s' hs' => ?_) fun _ hs' => hs'
      obtain ⟨more, hs', hmore, hall⟩ := hs'
      refine ⟨more, hs', fun r hr => ?_, fun cd hcd hgiven => ?_⟩
      · obtain ⟨cd, hcd, hfix⟩ := hmore r hr
        exact ⟨cd, List.mem_cons_of_mem _ hcd, hfix⟩
      · rcases List.mem_cons.mp hcd with rfl | hcd
        · cases hnull.symm.trans hgiven
        · exact hall cd hcd hgiven
    | false =>
      refine Triple.bind (Q := fun x s' => Grown s news s' ∧ d.asNumber = .ok x)
        (Triple.ofExcept (fun s' x hs' hx => ⟨hs', hx⟩) fun _ _ => trivial) fun x =>
        Triple.of_and fun hx => ?_
      refine Triple.bind (addRow_triple _ _ _ _) fun id s' hs' => ?_
      obtain ⟨-, name, hs'⟩ := hs'
      refine ih.conseq (fun _ hs' => hs') (fun _ s'' hs'' => ?_) (fun _ hs' => hs') s' hs'
      obtain ⟨more, hs'', hmore, hall⟩ := hs''
      rw [List.append_assoc] at hs''
      refine ⟨_, hs'', fun r hr => ?_, fun cd hcd hgiven => ?_⟩
      · rcases List.mem_cons.mp hr with rfl | hr
        · exact ⟨(column, d), by simp, ⟨rfl, rfl⟩, hnull, hx⟩
        · obtain ⟨cd, hcd, hfix⟩ := hmore r hr
          exact ⟨cd, List.mem_cons_of_mem _ hcd, hfix⟩
      · rcases List.mem_cons.mp hcd with rfl | hcd
        · exact ⟨_, List.mem_cons_self, ⟨rfl, rfl⟩, hnull, hx⟩
        · obtain ⟨r, hr, hfix⟩ := hall cd hcd hgiven
          exact ⟨r, List.mem_cons_of_mem _ hr, hfix⟩

/-! ### Limits -/

namespace Limit

theorem leNumber_asLower {b v q : α} (hv : (fin b).asLower.effective.leNumber v = true)
    (hq : b ≤ q) :
    (fin b).asLower.effective.leNumber q = true := by
  by_cases hlow : b ≤ -threshold
  · simp [asLower, hlow, effective, truncate, leNumber]
  · by_cases hhigh : threshold ≤ b
    · simp [asLower, hlow, effective, truncate, hhigh, leNumber] at hv
    · simp [asLower, hlow, effective, truncate, hhigh, leNumber, hq]

theorem numberLe_asUpper {b v q : α} (hv : numberLe v (fin b).asUpper.effective = true)
    (hq : q ≤ b) :
    numberLe q (fin b).asUpper.effective = true := by
  by_cases hhigh : threshold ≤ b
  · simp [asUpper, hhigh, effective, truncate, numberLe]
  · by_cases hlow : b ≤ -threshold
    · simp [asUpper, hlow, effective, truncate, hhigh, numberLe] at hv
    · simp [asUpper, hlow, effective, truncate, hhigh, numberLe, hq]

end Limit

/-! ### Junctions -/

namespace Junction

variable {base : Stage α} {first lagged : Bool} {alpha : Option (Column α)} {valid : Cut α → Prop}

/-- The junction of a model. Its links get the identifiers that come next. -/
def of (base : Stage α) (first lagged : Bool) (alpha : Option (Column α)) (valid : Cut α → Prop) :
    Junction α :=
  { base, first, alpha, lagged, valid
    links := if first then [] else List.range' base.issued base.copies.length
    noiseLinks := if first then [] else
      List.range' (base.issued + base.copies.length) base.noiseCopies.length }

omit [Field α] [LinearOrder α] in
theorem of_ids : (of base first lagged alpha valid).ids =
    if first then [] else List.range' base.issued (base.copies ++ base.noiseCopies).length := by
  cases first with
  | true => rfl
  | false => simp [ids, of]

omit [Field α] [LinearOrder α] in
theorem of_sound (h : base.WellFormed) : (of base first lagged alpha valid).Sound where
  base := h
  nodup := by
    rw [of_ids]
    split_ifs
    · exact List.nodup_nil
    · exact List.nodup_range'
  fresh := by
    intro id hid
    rw [of_ids] at hid
    split_ifs at hid
    · simp at hid
    · exact (List.mem_range'_1.mp hid).1
  links := by
    rintro (rfl : first = false)
    simp [of]
  first := by
    rintro (rfl : first = true)
    exact ⟨rfl, rfl⟩

/-! ### The cost-to-go -/

structure Unlinked (j : Junction α) (s : Stage α) : Prop where
  frame : s = { j.base with
    columns := j.base.columns ++ j.alpha.toList
    costToGoColumn := j.alpha.map fun _ => j.base.columns.length
    costToGo := s.costToGo
    status := s.status
    solution := s.solution }
  cuts : ∀ ctg, s.costToGo = some ctg → ctg.lagged = j.lagged ∧ ctg.pool.cuts = []

/-- The cost-to-go column: it is bounded on the side that the objective presses against. -/
def costToGoColumn (sense : Sense) (discount : α) (bound : Limit α) : Column α :=
  match sense with
  | .minimize => { name := "alpha", lower := bound.asLower, upper := .above, cost := discount }
  | .maximize => { name := "alpha", lower := .below, upper := bound.asUpper, cost := discount }

/-- The column of the cost-to-go allows all values within the bound, unless it allows none. -/
theorem costToGoColumn_allows [IsStrictOrderedRing α] {sense : Sense} {discount b v q : α}
    (hv : (costToGoColumn sense discount (.fin b)).Allows v)
    (hq : sense.orient b ≤ sense.orient q) :
    (costToGoColumn sense discount (.fin b)).Allows q := by
  cases sense with
  | minimize =>
    refine ⟨Limit.leNumber_asLower hv.1 hq, ?_⟩
    simp [costToGoColumn, Limit.effective, Limit.truncate, Limit.numberLe]
  | maximize =>
    refine ⟨?_, Limit.numberLe_asUpper hv.2 (neg_le_neg_iff.mp hq)⟩
    simp [costToGoColumn, Limit.effective, Limit.truncate, Limit.leNumber]

omit [Field α] [LinearOrder α] in
theorem unlinked_of_none (h : base.WellFormed) :
    (of base first lagged none valid).Unlinked base where
  frame := by
    have := h.noCostToGo.1
    simp [of, ← this]
  cuts := by simp [h.noCostToGo.2]

theorem addColumn_triple (c : Column α) (hname : c.name.isEmpty = false) :
    Triple (· = s) (Stage.addColumn c.name c.lower c.upper c.cost)
      (fun i s' => i = s.columns.length ∧ s' = { s with
        columns := s.columns ++ [{ c with lower := c.lower.asLower, upper := c.upper.asUpper }]
        status := .pending
        solution := none }) fun _ => True := by
  refine Triple.bind (Q := fun _ s' => s' = s)
    (Triple.ofExcept (fun _ _ hs _ => hs) fun _ _ => trivial) fun _ => ?_
  rintro _ rfl
  refine ⟨fun i s' hrun => ?_, fun _ _ _ => trivial⟩
  obtain ⟨hi, rfl⟩ := Prod.mk.inj hrun
  obtain rfl := Except.ok.inj hi
  simp [hname, Stage.discard]

theorem addCostToGo_triple (discount : α) (limit : Limit α) :
    Triple (· = s) (Stage.addCostToGo discount limit)
      (fun _ s' => s' = { s with
        columns := s.columns ++ [costToGoColumn s.sense discount limit]
        costToGoColumn := some s.columns.length
        status := .pending
        solution := none }) fun _ => True := by
  refine Triple.get_bind ?_
  rintro s rfl
  have hname : ("alpha" : String).isEmpty = false := by decide
  cases hsense : s.sense with
  | minimize =>
    refine Triple.bind (addColumn_triple ⟨"alpha", limit, .above, discount⟩ hname) fun i =>
      Triple.modify ?_
    rintro _ ⟨rfl, rfl⟩
    simp [hsense, costToGoColumn, Limit.asLower, Limit.asUpper]
  | maximize =>
    refine Triple.bind (addColumn_triple ⟨"alpha", .below, limit, discount⟩ hname) fun i =>
      Triple.modify ?_
    rintro _ ⟨rfl, rfl⟩
    simp [hsense, costToGoColumn, Limit.asLower, Limit.asUpper]

theorem setUpCostToGo_triple {j : Junction α} (h : j.base.WellFormed)
    {bound : Except (Fault α) (Limit α)} {discount : α} (sense : Sense) (pruning : Bool)
    (halpha : ∀ limit, bound = .ok limit →
      j.alpha = some (costToGoColumn j.base.sense discount limit)) :
    Triple (· = j.base) (do
        Stage.setUpCostToGo (bound.map fun bound => (discount, bound))
        Stage.setUpPool sense pruning j.lagged)
      (fun _ s => j.Unlinked s ∧ j.alpha.isSome = true) fun _ => True := by
  refine Triple.bind (Q := fun _ s => ∃ limit, bound = .ok limit ∧ s = { j.base with
      columns := j.base.columns ++ [costToGoColumn j.base.sense discount limit]
      costToGoColumn := some j.base.columns.length
      status := .pending
      solution := none }) ?_ ?_
  · refine Triple.get_bind fun s hs => ?_
    subst hs
    rw [if_neg (by simp [h.noCostToGo.1])]
    cases bound with
    | error e =>
      exact Triple.bind (Q := fun _ _ => False)
        (Triple.ofExcept (fun _ _ _ hb => nomatch hb) fun _ _ => trivial)
        fun _ _ hs => hs.elim
    | ok limit =>
      exact (addCostToGo_triple discount limit).conseq (fun _ hs => hs)
        (fun _ _ hs => ⟨limit, rfl, hs⟩) fun _ hs => hs
  · rintro _ s ⟨limit, hlimit, hs⟩
    have hnone : s.costToGo = none := by
      rw [hs]
      exact h.noCostToGo.2
    refine ⟨fun _ s' hrun => ?_, fun _ _ _ => trivial⟩
    obtain rfl : { s with
        costToGo := some (Stage.newCostToGo sense (s.cutBox j.lagged) pruning j.lagged) } = s' := by
      simpa [Run.on, Stage.setUpPool, hnone] using (Prod.mk.inj hrun).2
    have hcolumn := halpha limit hlimit
    refine ⟨⟨by rw [hs, hcolumn]; rfl, fun ctg hctg => ?_⟩, by rw [hcolumn]; rfl⟩
    obtain rfl := Option.some.inj hctg
    exact ⟨rfl, rfl⟩

/-! ### Links -/

variable [Numeral α]

/-- Whether all rows that a junction asks for are there: those of the model as it was written, a
link for each incoming value, and a row for each initial value on the first stage. -/
structure Complete (j : Junction α) (m : Stage α) : Prop where
  base : ∀ r ∈ j.base.rows, r ∈ m.rows
  links : ∀ i column id : ℕ, j.copies[i]? = some column → j.ids[i]? = some id →
    ∃ r ∈ m.rows, r.id = id ∧ r.Sets column
  initial : j.first = true → ∀ cd ∈ j.base.copies.zip j.base.initial, cd.2.isNull = false →
    ∃ r ∈ m.rows, j.base.issued ≤ r.id ∧ r.Fixes cd

/-- A model is joined once its links stand behind its rows. -/
theorem Unlinked.joined {j : Junction α} {s s' : Stage α} (h : j.Unlinked s) (hj : j.Sound)
    (hs' : Grown s news s')
    (hnews : ∀ r ∈ news, j.Admits j.Loose AnyLink r)
    (hids : ∀ id ∈ j.ids, id < j.base.issued + news.length) :
    j.AtRest AnyLink { s' with links := j.links, noiseLinks := j.noiseLinks, linked := true } := by
  have hrows : s'.rows = j.base.rows ++ news := by rw [hs'.frame, h.frame]
  have hissued : s'.issued = j.base.issued + news.length := by rw [hs'.frame, h.frame]
  have hnewids : news.map (·.id) = List.range' j.base.issued news.length := by
    have hstart : s.issued = j.base.issued := by rw [h.frame]
    rw [hs'.ids, hstart]
  refine ⟨?_, ?_, ?_, ?_, ?_, ?_, ?_⟩
  · rw [hs'.frame, h.frame]
  · intro r hr
    rcases List.mem_append.mp (hrows ▸ hr) with hr | hr
    · exact .base r hr rfl (.inl rfl)
    · exact hnews r hr
  · change (s'.rows.map (·.id)).Nodup
    rw [hrows, List.map_append, hnewids, List.nodup_append]
    refine ⟨hj.base.ids, List.nodup_range', ?_⟩
    rintro id hid id' hid' rfl
    obtain ⟨r, hr, rfl⟩ := List.mem_map.mp hid
    have := hj.base.issued r hr
    have := (List.mem_range'_1.mp hid').1
    omega
  · intro r hr
    change r.id < s'.issued
    rw [hissued]
    rcases List.mem_append.mp (hrows ▸ hr) with hr | hr
    · exact Nat.lt_add_right _ (hj.base.issued r hr)
    · have hid : r.id ∈ news.map (·.id) := List.mem_map_of_mem hr
      rw [hnewids] at hid
      exact (List.mem_range'_1.mp hid).2
  · intro id hid
    change id < s'.issued
    rw [hissued]
    exact hids id hid
  · change j.base.issued ≤ s'.issued
    omega
  · intro ctg hctg
    have hsame : s.costToGo = some ctg := by
      rw [← hctg, hs'.frame]
    obtain ⟨hlagged, hnil⟩ := h.cuts ctg hsame
    exact ⟨hlagged, by simp [hnil]⟩

private theorem admits_link {j : Junction α} {B : Row α → α → Prop}
    (hnews : List.Forall₂ Row.Sets j.copies news) (hids : news.map (·.id) = j.ids) {r : Row α}
    (hr : r ∈ news) :
    j.Admits B AnyLink r := by
  obtain ⟨i, hi, rfl⟩ := List.getElem_of_mem hr
  have hcopy : i < j.copies.length := by rwa [hnews.length_eq]
  obtain ⟨hterms, hrelation⟩ := hnews.get hcopy hi
  refine .link i j.copies[i] ?_ (List.getElem?_eq_getElem hcopy) hterms hrelation trivial
  rw [← hids, List.getElem?_map, List.getElem?_eq_getElem hi]
  rfl

/-- The first stage is joined once its copies are fixed at the initial values. -/
theorem Unlinked.joined_first (hbase : base.WellFormed)
    (hs : (of base true lagged alpha valid).Unlinked s) (hs' : Grown s news s')
    (hnews : ∀ r ∈ news, ∃ cd ∈ base.copies.zip base.initial, r.Fixes cd)
    (hall : ∀ cd ∈ base.copies.zip base.initial, cd.2.isNull = false → ∃ r ∈ news, r.Fixes cd) :
    (of base true lagged alpha valid).AtRest AnyLink { s' with linked := true } ∧
      (of base true lagged alpha valid).Complete { s' with linked := true } := by
  have hissued : s.issued = base.issued := by rw [hs.frame]; rfl
  have hnumbered (r : Row α) (hr : r ∈ news) : base.issued ≤ r.id := by
    have hid : r.id ∈ news.map (·.id) := List.mem_map_of_mem hr
    rw [hs'.ids, hissued] at hid
    exact (List.mem_range'_1.mp hid).1
  have hrows : s'.rows = base.rows ++ news := by rw [hs'.frame, hs.frame]; rfl
  constructor
  · have hjoined := hs.joined (of_sound hbase) hs' (fun r hr => ?_) (by simp [of_ids])
    · have hsame : ({ s' with linked := true } : Stage α) =
          { s' with links := [], noiseLinks := [], linked := true } := by
        rw [hs'.frame, hs.frame]
        simp [of, hbase.unlinked.1, hbase.unlinked.2.1]
      rw [hsame]
      exact hjoined
    · obtain ⟨cd, hcd, ⟨hterms, hrelation⟩, hgiven, hvalue⟩ := hnews r hr
      exact .initial (by simp [of_ids])
        (hnumbered r hr) cd.1 cd.2 rfl hcd hgiven hvalue hterms hrelation
  · refine ⟨fun r hr => ?_,
      fun i column id _ hid => by simp [of_ids] at hid, fun _ cd hcd hgiven => ?_⟩
    · exact hrows ▸ List.mem_append_left _ hr
    · obtain ⟨r, hr, hfix⟩ := hall cd hcd hgiven
      exact ⟨r, hrows ▸ List.mem_append_right _ hr, hnumbered r hr, hfix⟩

/-- A later stage is joined once there is a link for each of its copies. -/
theorem Unlinked.joined_later (hbase : base.WellFormed)
    (hs : (of base false lagged alpha valid).Unlinked s) (hs' : Grown s news s')
    (hnews : List.Forall₂ Row.Sets (base.copies ++ base.noiseCopies) news) :
    let j := of base false lagged alpha valid
    let m := { s' with links := j.links, noiseLinks := j.noiseLinks, linked := true }
    j.AtRest AnyLink m ∧ j.Complete m := by
  intro j m
  have hids : news.map (·.id) = j.ids := by
    have hissued : s.issued = base.issued := by rw [hs.frame]; rfl
    rw [of_ids, if_neg (by simp), hnews.length_eq, ← hissued]
    exact hs'.ids
  have hrows : s'.rows = base.rows ++ news := by rw [hs'.frame, hs.frame]; rfl
  refine ⟨?_, fun r hr => ?_, fun i column id hcopy hid => ?_, nofun⟩
  · refine hs.joined (of_sound hbase) hs' (fun r hr => admits_link hnews hids hr) fun id hid => ?_
    rw [of_ids, if_neg (by simp), hnews.length_eq] at hid
    exact (List.mem_range'_1.mp hid).2
  · exact hrows ▸ List.mem_append_left _ hr
  · rw [← hids, List.getElem?_map] at hid
    obtain ⟨r, hr, hid⟩ := Option.map_eq_some_iff.mp hid
    refine ⟨r, hrows ▸ List.mem_append_right _ (List.mem_of_getElem? hr), hid, ?_⟩
    obtain ⟨hi, rfl⟩ := List.getElem?_eq_some_iff.mp hr
    obtain ⟨hi', rfl⟩ := List.getElem?_eq_some_iff.mp hcopy
    exact hnews.get hi' hi

theorem setUpLinks_triple (hbase : base.WellFormed) :
    Triple (of base first lagged alpha valid).Unlinked (Stage.setUpLinks first)
      (fun _ m => (of base first lagged alpha valid).AtRest AnyLink m ∧
        (of base first lagged alpha valid).Complete m)
      fun _ => True := by
  refine Triple.get_bind fun s hs => ?_
  have hlinked : s.linked = false := by
    rw [hs.frame]
    exact hbase.unlinked.2.2
  have hissued : s.issued = base.issued := by rw [hs.frame]; rfl
  have hcopies : s.copies = base.copies ∧ s.initial = base.initial ∧
      s.noiseCopies = base.noiseCopies := by
    rw [hs.frame]
    exact ⟨rfl, rfl, rfl⟩
  have hstart : ∀ s', s' = s → Grown s [] s' := by
    rintro _ rfl
    exact Grown.refl _
  rw [if_neg (by simp [hlinked]), hcopies.1, hcopies.2.1, hcopies.2.2]
  cases first with
  | true =>
    refine Triple.bind (fun s' hs' => fixInitial_triple _ s' (hstart s' hs')) fun _ => ?_
    refine Triple.modify fun s' hs' => ?_
    obtain ⟨news, hgrown, hnews, hall⟩ := hs'
    exact hs.joined_first hbase hgrown hnews hall
  | false =>
    refine Triple.bind (fun s' hs' => addLinks_triple base.copies _ s' (hstart s' hs'))
      fun links s' hs' => ?_
    obtain ⟨rfl, news, hgrown, hnews⟩ := hs'
    refine Triple.bind (addLinks_triple base.noiseCopies _) (fun noiseLinks s' hs' => ?_) s' hgrown
    obtain ⟨rfl, more, hgrown, hmore⟩ := hs'
    refine ⟨fun _ s'' hrun => ?_, fun _ _ _ => trivial⟩
    obtain rfl := (Prod.mk.inj hrun).2
    have hjoined := hs.joined_later hbase hgrown (List.rel_append hnews hmore)
    -- the links are numbered on from the rows of the model
    have hlinks : List.range' (s.issued + ([] : List (Row α)).length) base.copies.length =
        (of base false lagged alpha valid).links := by
      rw [hissued]
      rfl
    have hnoiseLinks : List.range' (s.issued + ([] ++ news).length) base.noiseCopies.length =
        (of base false lagged alpha valid).noiseLinks := by
      rw [hissued, List.nil_append, ← hnews.length_eq]
      rfl
    rw [hlinks, hnoiseLinks]
    exact hjoined

end Junction

end Recourse
