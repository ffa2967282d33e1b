import Recourse.Proofs.Multistage.Draft
import Recourse.Proofs.Stage.Building
import Recourse.Proofs.Stage.SetUp

/-! How a model is joined to its neighbours, and how that may fail. A model that joins gets a link
for each local copy, and a cost-to-go function over a box of its cut columns. A model that cannot be
linked stays so, whatever is written afterwards: the initial value that is no number is still there,
and so is the copy whose name is too long. -/

namespace Recourse.Stage

open Run (Keeps Triple)

variable {α : Type}

/-! ### Models as they are built -/

/-- A model that is joined to no other one, and that was never solved. -/
structure Alone (m : Stage α) : Prop where
  links : m.links = [] ∧ m.noiseLinks = [] ∧ m.linked = false
  costToGo : m.costToGoColumn = none ∧ m.costToGo = none
  unsolved : m.status = .pending ∧ m.solution = none

def Follows (m : Stage α) : Prop := m.noise = [] → m.noiseCopies = []

structure Built (m : Stage α) : Prop extends Alone m where
  follows : m.Follows
  samples : m.sampleCount ≠ 0

section

variable [Scalar α]

theorem built_empty (name : String) (stage markovState : Datum α) (sense : Sense)
    (settings : List (String × Datum α)) :
    Built { Stage.empty name stage markovState sense with settings } where
  links := ⟨rfl, rfl, rfl⟩
  costToGo := ⟨rfl, rfl⟩
  unsolved := ⟨rfl, rfl⟩
  follows := fun _ => rfl
  samples := Nat.one_ne_zero

variable [Numeral α]

omit [Numeral α] in
theorem built_lasting : Lasting (Built : Stage α → Prop) where
  putColumn := by
    intro c
    exact Keeps.iff_on.mpr fun m hm => ⟨⟨hm.links, hm.costToGo, rfl, rfl⟩, hm.follows, hm.samples⟩
  unlist := by
    intro m unlisted hm
    exact ⟨⟨hm.links, hm.costToGo, hm.unsolved⟩, hm.follows, hm.samples⟩
  putRow := by
    intro name terms relation rhs
    exact Keeps.iff_on.mpr fun m hm => ⟨⟨hm.links, hm.costToGo, rfl, rfl⟩, hm.follows, hm.samples⟩
  removeRows := by
    intro ids
    refine Keeps.iff_on.mpr fun m hm => ?_
    simp only [Run.on, removeRows]
    split_ifs
    · exact hm
    · exact ⟨⟨hm.links, hm.costToGo, rfl, rfl⟩, hm.follows, hm.samples⟩
  states := by
    intro m states copies initial hm
    exact ⟨⟨hm.links, hm.costToGo, hm.unsolved⟩, hm.follows, hm.samples⟩
  count := by
    intro m n hn _ hm
    exact ⟨⟨hm.links, hm.costToGo, hm.unsolved⟩, hm.follows, hn⟩
  random := by
    intro m random _ _ hm
    exact ⟨⟨hm.links, hm.costToGo, hm.unsolved⟩, hm.follows, hm.samples⟩
  noise := by
    intro m noise noiseCopies coefficients _ hfollows hm
    exact ⟨⟨hm.links, hm.costToGo, hm.unsolved⟩, hfollows, hm.samples⟩
  objective := by
    intro terms constant
    unfold setObjective
    split_ifs
    · exact Triple.throw_bind fun _ hm => hm
    · exact Triple.modify fun m hm => ⟨⟨hm.links, hm.costToGo, rfl, rfl⟩, hm.follows, hm.samples⟩
  sense := by
    intro sense
    refine Keeps.iff_on.mpr fun m hm => ?_
    simp only [Run.on, setSense]
    split_ifs
    · exact hm
    · exact ⟨⟨hm.links, hm.costToGo, rfl, rfl⟩, hm.follows, hm.samples⟩

theorem Built.after {m : Stage α} (hm : m.Built) (step : BuildStep α) : (step.after m).Built :=
  built_lasting.after (fun _ _ hm => ⟨⟨hm.links, hm.costToGo, hm.unsolved⟩, hm.follows, hm.samples⟩)
    step hm

end

/-! ### What keeps a model from being linked -/

section

variable [Scalar α] [Numeral α]

/-- Whether the name of the row that links a column is too long. -/
def Unnameable (m : Stage α) (family : String) (column : ℕ) : Prop :=
  nameLimit < (memberName family (m.columnLabel column)).utf8ByteSize

def Unvalued (cd : ℕ × Datum α) : Prop := cd.2.isNull = false ∧ ∀ x : α, cd.2.asNumber ≠ .ok x

def Refused (m : Stage α) : Bool → Prop
  | true => ∃ cd ∈ m.copies.zip m.initial, Unvalued cd
  | false => (∃ column ∈ m.copies, m.Unnameable "link_constrs" column) ∨
      ∃ column ∈ m.noiseCopies, m.Unnameable "noise_link_constrs" column

/-- A model that is not linked and cannot be. -/
structure Stuck (first : Bool) (m : Stage α) : Prop where
  unlinked : m.linked = false
  follows : m.Follows
  refused : m.Refused first

omit [Scalar α] [Numeral α] in
/-- Only the name of a column can make the name of its link too long. -/
theorem Unnameable.exists_column {m : Stage α} {family : String} {column : ℕ}
    (h : m.Unnameable family column) (hfamily : family.utf8ByteSize ≤ 100) :
    ∃ c, m.columns[column]? = some c := by
  by_contra hnone
  have hcolumn : m.columns[column]? = none := by
    simpa [Option.eq_none_iff_forall_ne_some] using hnone
  have hlabel : m.columnLabel column = "<gurobi.Var >" := by simp [columnLabel, columnName, hcolumn]
  have hlabelSize : ("<gurobi.Var >" : String).utf8ByteSize = 13 := by decide
  have hbrackets : ("[" : String).utf8ByteSize = 1 ∧ ("]" : String).utf8ByteSize = 1 ∧
      ("" : String).utf8ByteSize = 0 := by decide
  unfold Unnameable memberName at h
  rw [hlabel] at h
  split_ifs at h
  · simp [nameLimit, hbrackets] at h
  · simp only [nameLimit, String.utf8ByteSize_append, hlabelSize, hbrackets] at h
    omega

omit [Scalar α] [Numeral α] in
theorem Unnameable.mono {m m' : Stage α} {family : String} {column : ℕ}
    (h : m.Unnameable family column) (hfamily : family.utf8ByteSize ≤ 100)
    (hnames : ∀ (i : ℕ) c, m.columns[i]? = some c →
      ∃ c', m'.columns[i]? = some c' ∧ c'.name = c.name) :
    m'.Unnameable family column := by
  obtain ⟨c, hc⟩ := h.exists_column hfamily
  obtain ⟨c', hc', hname⟩ := hnames column c hc
  have hlabel : m'.columnLabel column = m.columnLabel column := by
    simp [columnLabel, columnName, hc, hc', hname]
  unfold Unnameable
  rw [hlabel]
  exact h

/-- What is added to a model does not help it. -/
theorem Stuck.mono {first : Bool} {m m' : Stage α} (h : m.Stuck first)
    (hlinked : m'.linked = m.linked)
    (hnames : ∀ (i : ℕ) c, m.columns[i]? = some c →
      ∃ c', m'.columns[i]? = some c' ∧ c'.name = c.name)
    (hcopies : m.copies <+: m'.copies) (hinitial : m.initial <+: m'.initial)
    (hfollows : m'.Follows) (hnoise : m.noise ≠ [] → m'.noiseCopies = m.noiseCopies) :
    m'.Stuck first where
  unlinked := hlinked.trans h.unlinked
  follows := hfollows
  refused := by
    cases first with
    | true =>
      obtain ⟨cd, hcd, hvalue⟩ := h.refused
      obtain ⟨i, hi⟩ := List.mem_iff_getElem?.mp hcd
      obtain ⟨hcopy, hgiven⟩ := List.getElem?_zip_eq_some.mp hi
      have hkept {β : Type} {xs ys : List β} {x : β} (hstart : xs <+: ys) (hx : xs[i]? = some x) :
          ys[i]? = some x := by
        obtain ⟨zs, rfl⟩ := hstart
        rw [List.getElem?_append_left (List.getElem?_eq_some_iff.mp hx).1]
        exact hx
      have hcd' := List.getElem?_zip_eq_some.mpr ⟨hkept hcopies hcopy, hkept hinitial hgiven⟩
      exact ⟨cd, List.mem_of_getElem? hcd', hvalue⟩
    | false =>
      rcases h.refused with ⟨column, hcolumn, hlong⟩ | ⟨column, hcolumn, hlong⟩
      · exact .inl ⟨column, hcopies.subset hcolumn, hlong.mono (by decide) hnames⟩
      · have hne : m.noise ≠ [] := by
          intro hnil
          rw [h.follows hnil] at hcolumn
          cases hcolumn
        refine .inr ⟨column, ?_, hlong.mono (by decide) hnames⟩
        rw [hnoise hne]
        exact hcolumn

variable {first : Bool}

theorem stuck_lasting : Lasting (Stuck first : Stage α → Prop) where
  putColumn := by
    intro c
    refine Keeps.iff_on.mpr fun m hm =>
      hm.mono rfl (fun i c' hc' => ⟨c', ?_, rfl⟩) List.prefix_rfl List.prefix_rfl
      hm.follows fun _ => rfl
    exact (List.getElem?_append_left (List.getElem?_eq_some_iff.mp hc').1).trans hc'
  unlist := by
    intro m unlisted hm
    exact ⟨hm.unlinked, hm.follows, hm.refused⟩
  putRow := by
    intro name terms relation rhs
    exact Keeps.iff_on.mpr fun m hm => ⟨hm.unlinked, hm.follows, hm.refused⟩
  removeRows := by
    intro ids
    refine Keeps.iff_on.mpr fun m hm => ?_
    obtain ⟨status, solution, hrun⟩ := removeRows_on ids m
    rw [hrun]
    exact ⟨hm.unlinked, hm.follows, hm.refused⟩
  states := by
    intro m states copies initial hm
    exact hm.mono rfl (fun _ c hc => ⟨c, hc, rfl⟩) (List.prefix_append _ _)
      (List.prefix_append _ _) hm.follows fun _ => rfl
  count := by
    intro m n _ _ hm
    exact ⟨hm.unlinked, hm.follows, hm.refused⟩
  random := by
    intro m random _ _ hm
    exact ⟨hm.unlinked, hm.follows, hm.refused⟩
  noise := by
    intro m noise noiseCopies coefficients hnone hfollows hm
    exact hm.mono rfl (fun _ c hc => ⟨c, hc, rfl⟩) List.prefix_rfl List.prefix_rfl hfollows
      fun hne => absurd hnone hne
  objective := by
    intro terms constant
    unfold setObjective
    split_ifs
    · exact Triple.throw_bind fun _ hm => hm
    · refine Triple.modify fun m hm =>
        hm.mono rfl (fun i c hc => ?_) List.prefix_rfl List.prefix_rfl hm.follows fun _ => rfl
      refine ⟨{ c with cost := Scalar.total ((terms.filter fun t => t.1 = i).map (·.2)) }, ?_, rfl⟩
      simp [List.getElem?_map, List.getElem?_zipIdx, hc]
  sense := by
    intro sense
    refine Keeps.iff_on.mpr fun m hm => ?_
    obtain ⟨status, solution, hrun⟩ := setSense_on sense m
    rw [hrun]
    exact ⟨hm.unlinked, hm.follows, hm.refused⟩

theorem Stuck.after {m : Stage α} (hm : m.Stuck first) (step : BuildStep α) :
    (step.after m).Stuck first :=
  stuck_lasting.after (fun _ _ hm => ⟨hm.unlinked, hm.follows, hm.refused⟩) step hm

end

/-! ### Links -/

section

variable [Field α] [LinearOrder α] {b : Stage α} {first : Bool}

theorem addRow_bare (name : String) (terms : List (ℕ × α)) (relation : Relation) (rhs : α) :
    Triple (fun m => m.bare = b) (addRow name terms relation rhs)
      (fun _ m => m.bare = b ∧ ¬nameLimit < name.utf8ByteSize)
      fun m => m.bare = b ∧ nameLimit < name.utf8ByteSize := by
  unfold addRow
  rw [if_neg (by simp)]
  by_cases hlong : nameLimit < name.utf8ByteSize
  · rw [if_pos hlong]
    exact Triple.throw_bind fun m hm => ⟨hm, hlong⟩
  · rw [if_neg hlong]
    refine fun m hm => ⟨fun id m' hrun => ?_, fun e m' hrun => ?_⟩ <;> cases hrun
    exact ⟨hm, hlong⟩

theorem addLinks_bare (columns : List ℕ) (family : String) :
    Triple (fun m => m.bare = b) (addLinks columns family)
      (fun ids m => m.bare = b ∧ ids.length = columns.length ∧
        ∀ column ∈ columns, ¬b.Unnameable family column)
      fun m => m.bare = b ∧ ∃ column ∈ columns, b.Unnameable family column := by
  refine Triple.get_bind fun s hs => ?_
  have hlabel (column : ℕ) : s.columnLabel column = b.columnLabel column := by
    rw [← hs]
    rfl
  simp only [hlabel]
  refine (Triple.mapM (I := fun m => m.bare = b) (S := fun column _ => ¬b.Unnameable family column)
    fun column hcolumn => ?_).conseq (fun m hm => hm ▸ hs) (fun ids m hm => ?_) fun _ hm => hm
  · refine (addRow_bare (memberName family (b.columnLabel column)) _ _ _).conseq (fun _ hm => hm)
      (fun _ _ hm => hm) ?_
    intro m hm
    exact ⟨hm.1, column, hcolumn, hm.2⟩
  · refine ⟨hm.1, hm.2.length_eq.symm, fun column hcolumn => ?_⟩
    obtain ⟨i, hi, rfl⟩ := List.getElem_of_mem hcolumn
    exact hm.2.get hi (hm.2.length_eq ▸ hi)

variable [Numeral α]

theorem fixInitial_bare (pairs : List (ℕ × Datum α)) :
    Triple (fun m => m.bare = b) (fixInitial pairs)
      (fun _ m => m.bare = b ∧ ∀ cd ∈ pairs, ¬Unvalued cd)
      fun m => m.bare = b ∧ ∃ cd ∈ pairs, Unvalued cd := by
  induction pairs with
  | nil => exact Triple.pure fun m hm => ⟨hm, fun cd hcd => absurd hcd List.not_mem_nil⟩
  | cons cd pairs ih =>
    obtain ⟨column, d⟩ := cd
    have hrest (hvalue : ¬Unvalued (column, d)) : Triple (fun m => m.bare = b) (fixInitial pairs)
        (fun _ m => m.bare = b ∧ ∀ cd ∈ (column, d) :: pairs, ¬Unvalued cd)
        fun m => m.bare = b ∧ ∃ cd ∈ (column, d) :: pairs, Unvalued cd := by
      refine ih.conseq (fun _ hm => hm) (fun _ m hm => ?_) fun m hm => ?_
      · exact ⟨hm.1, List.forall_mem_cons.mpr ⟨hvalue, hm.2⟩⟩
      · obtain ⟨hm, cd, hcd, hbad⟩ := hm
        exact ⟨hm, cd, List.mem_cons_of_mem _ hcd, hbad⟩
    rw [fixInitial]
    cases hnull : d.isNull with
    | true => exact hrest fun hbad => by simp [Unvalued, hnull] at hbad
    | false =>
      rcases hx : (d.asNumber : Except (Fault α) α) with e | x
      · refine Triple.bind (Q := fun _ _ => False)
          (Triple.ofExcept (fun _ _ _ h => ?_) fun m hm => ?_)
          fun _ _ hm => hm.elim
        · cases h
        · refine ⟨hm, (column, d), List.mem_cons_self, hnull, fun x hx' => ?_⟩
          rw [hx] at hx'
          cases hx'
      · have hrow : Triple (fun m : Stage α => m.bare = b)
            (addRow "initial_value" [(column, 1)] .equal x)
            (fun _ m => m.bare = b) fun m =>
            m.bare = b ∧ ∃ cd ∈ (column, d) :: pairs, Unvalued cd :=
          (addRow_bare "initial_value" _ _ _).conseq (fun _ hm => hm) (fun _ _ hm => hm.1)
            fun _ hm => absurd hm.2 (by decide)
        change Triple _ (addRow "initial_value" [(column, 1)] .equal x >>=
          fun _ => fixInitial pairs) _ _
        exact Triple.bind hrow fun _ => hrest fun hbad => hbad.2 x hx

/-- Linking a model succeeds unless a link is refused. -/
theorem setUpLinks_bare (hb : b.linked = false) :
    Triple (fun m => m.bare = b) (setUpLinks first)
      (fun _ m => (∃ links noiseLinks, m.bare = { b with links, noiseLinks, linked := true } ∧
        if first then links = b.links ∧ noiseLinks = b.noiseLinks
        else links.length = b.copies.length ∧ noiseLinks.length = b.noiseCopies.length) ∧
        ¬b.Refused first)
      fun m => m.bare = b ∧ b.Refused first := by
  refine Triple.get_bind fun s hs => ?_
  have hlinked : ¬s.linked = true := by
    have hs' : s.linked = false := by
      rw [← hs] at hb
      exact hb
    rw [hs']
    exact Bool.false_ne_true
  have hcopies : s.copies = b.copies ∧ s.noiseCopies = b.noiseCopies ∧ s.initial = b.initial := by
    rw [← hs]
    exact ⟨rfl, rfl, rfl⟩
  rw [if_neg hlinked, hcopies.1, hcopies.2.1, hcopies.2.2]
  refine Triple.conseq (P := fun m => m.bare = b) ?_ (fun m hm => hm ▸ hs) (fun _ _ hm => hm)
    fun _ hm => hm
  cases first with
  | true =>
    refine Triple.bind ((fixInitial_bare _).conseq (fun _ hm => hm) (fun _ _ hm => hm)
      fun _ hm => hm) fun _ => ?_
    refine Triple.modify fun m hm => ⟨⟨b.links, b.noiseLinks, ?_, rfl, rfl⟩, ?_⟩
    · rw [← hm.1]
      rfl
    · rintro ⟨cd, hcd, hbad⟩
      exact hm.2 cd hcd hbad
  | false =>
    refine Triple.bind ((addLinks_bare _ _).conseq (fun _ hm => hm) (fun _ _ hm => hm)
      fun _ hm => ⟨hm.1, .inl hm.2⟩)
      fun links => ?_
    refine Triple.conseq (P := fun m => m.bare = b ∧ links.length = b.copies.length ∧
      ∀ column ∈ b.copies, ¬b.Unnameable "link_constrs" column) ?_ (fun _ hm => hm)
      (fun _ _ hm => hm) fun _ hm => hm
    refine Triple.of_and fun hlinks => ?_
    refine Triple.bind ((addLinks_bare _ _).conseq (fun _ hm => hm) (fun _ _ hm => hm)
      fun _ hm => ⟨hm.1, .inr hm.2⟩)
      fun noiseLinks => ?_
    refine Triple.bind (Q := fun _ m => m.bare = { b with links, noiseLinks } ∧
      noiseLinks.length = b.noiseCopies.length ∧
      ∀ column ∈ b.noiseCopies, ¬b.Unnameable "noise_link_constrs" column)
      (Triple.modify fun m hm => ?_) fun _ => ?_
    · refine ⟨?_, hm.2⟩
      rw [← hm.1]
      rfl
    · refine Triple.modify fun m hm => ⟨⟨links, noiseLinks, ?_, hlinks.1, hm.2.1⟩, ?_⟩
      · change { m.bare with linked := true } = _
        rw [hm.1]
      · rintro (⟨column, hcolumn, hbad⟩ | ⟨column, hcolumn, hbad⟩)
        · exact hlinks.2 column hcolumn hbad
        · exact hm.2.2 column hcolumn hbad

/-- A model that is stuck is not linked. -/
theorem setUpLinks_of_stuck : Triple (Stuck first : Stage α → Prop) (setUpLinks first)
    (fun _ _ => False) (Stuck first) := by
  intro m hm
  refine ((setUpLinks_bare (b := m.bare) hm.unlinked).conseq (fun m' (h : m'.bare = m.bare) => h)
    (fun _ m' h => h.2 hm.refused) fun m' h => ?_) m rfl
  have hsame : m'.bare.Stuck first := h.1 ▸ ⟨hm.unlinked, hm.follows, hm.refused⟩
  exact ⟨hsame.unlinked, hsame.follows, hsame.refused⟩

theorem setUpLinks_stuck : Triple (Follows : Stage α → Prop) (setUpLinks first) (fun _ => Follows)
    (Stuck first) := by
  intro m hm
  cases hlinked : m.linked with
  | true =>
    refine (Triple.get_bind (P := (· = m)) fun s hs => ?_) m rfl
    rw [if_pos (by rw [hs, hlinked])]
    exact Triple.pure fun _ h => h ▸ hs ▸ hm
  | false =>
    refine ((setUpLinks_bare (b := m.bare) hlinked).conseq (fun m' (h : m'.bare = m.bare) => h)
      (fun _ m' h => ?_) fun m' h => ?_) m rfl
    · obtain ⟨⟨links, noiseLinks, hbare, -⟩, -⟩ := h
      have hfollows : m'.bare.Follows := hbare ▸ hm
      exact hfollows
    · have hsame : m'.bare.Stuck first := h.1 ▸ ⟨hlinked, hm, h.2⟩
      exact ⟨hsame.unlinked, hsame.follows, hsame.refused⟩

end

/-! ### The cost-to-go -/

section

variable [Scalar α]

theorem Open.setUpCostToGo {I : Stage α → Prop} (h : Open I)
    (hset : ∀ (m : Stage α) column, I m → I { m with costToGoColumn := some column })
    (terms : Except (Fault α) (α × Limit α)) : Keeps I (setUpCostToGo terms) := by
  have hadd (name : String) (lower upper : Limit α) (cost : α) :
      Keeps I (addColumn name lower upper cost) :=
    Keeps.bind .ofExcept fun _ => h.putColumn _
  have hcolumn (discount : α) (bound : Limit α) : Keeps I (addCostToGo discount bound) := by
    refine .get_bind fun m => ?_
    cases m.sense with
    | minimize => exact (hadd _ _ _ _).bind fun column => Triple.modify fun m hm => hset m column hm
    | maximize => exact (hadd _ _ _ _).bind fun column => Triple.modify fun m hm => hset m column hm
  exact .get_bind fun m => .ite .pure (.bind .ofExcept fun terms => hcolumn terms.1 terms.2)

theorem setUpPool_frame {I : Stage α → Prop}
    (hI : ∀ (m : Stage α) costToGo, I m → I { m with costToGo })
    (sense : Sense) (pruning lagged : Bool) :
    Keeps I (setUpPool sense pruning lagged : Edit α Unit) := by
  refine Keeps.iff_on.mpr fun m hm => ?_
  simp only [Run.on, setUpPool]
  rcases hctg : m.costToGo with _ | ctg
  · exact hI m _ hm
  · exact hm

/-- Without a discount and a bound, a model is left as it was written. -/
theorem equip_of_error (e : Fault α) (sense : Sense) (pruning lagged : Bool) :
    Triple (Built : Stage α → Prop) (do setUpCostToGo (.error e); setUpPool sense pruning lagged)
      (fun _ _ => False)
      Built := by
  refine Triple.bind (Q := fun _ _ => False) (Triple.get_bind fun m hm => ?_) fun _ _ hm => hm.elim
  rw [if_neg (by simp [hm.costToGo])]
  exact Triple.bind (Q := fun _ _ => False)
    (Triple.ofExcept (fun _ _ _ h => nomatch h) fun s hs => hs ▸ hm)
    fun _ _ hm => hm.elim

/-- A cost-to-go is of no help to a model that is stuck. -/
theorem equip_of_stuck [Numeral α] {first : Bool} (terms : Except (Fault α) (α × Limit α))
    (sense : Sense) (pruning lagged : Bool) :
    Keeps (Stuck first : Stage α → Prop)
      (do setUpCostToGo terms; setUpPool sense pruning lagged) := by
  refine (stuck_lasting.toOpen.setUpCostToGo (fun m column hm => ?_) terms).bind fun _ =>
    setUpPool_frame (fun m _ hm => ?_) _ _ _
  · exact ⟨hm.unlinked, hm.follows, hm.refused⟩
  · exact ⟨hm.unlinked, hm.follows, hm.refused⟩

end

section

variable [Field α] [LinearOrder α] {first lagged equipped linked : Bool}

theorem Limit.isDefined_eq (l : Limit α) : l.isDefined = true := by
  cases l <;> simp [Limit.isDefined]

theorem addColumn_ok {name : String} (hname : name.utf8ByteSize ≤ nameLimit) (lower upper : Limit α)
    (cost : α) :
    Triple (fun _ : Stage α => True) (addColumn name lower upper cost) (fun _ _ => True)
      fun _ => False := by
  have hcheck : Column.check { name, lower, upper, cost } = .ok () := by
    unfold Column.check Column.isDefined
    rw [Limit.isDefined_eq, Limit.isDefined_eq, Scalar.isNumber_eq]
    rw [if_neg (by simp), if_neg (not_lt.mpr hname)]
  unfold addColumn
  dsimp only
  rw [hcheck]
  refine fun m _ => ⟨fun _ _ _ => trivial, fun e m' hrun => ?_⟩
  cases hrun

theorem equip_of_ok (terms : α × Limit α) (sense : Sense) (pruning lagged : Bool) :
    Triple (Follows : Stage α → Prop) (do setUpCostToGo (.ok terms); setUpPool sense pruning lagged)
      (fun _ => Follows)
      fun _ => False := by
  have hkeeps : Keeps (Follows : Stage α → Prop)
      (do setUpCostToGo (.ok terms); setUpPool sense pruning lagged) :=
    (setUpCostToGo_keeps (fun _ _ _ _ _ hm => hm) _).bind fun _ =>
      setUpPool_frame (fun _ _ hm => hm) _ _ _
  have halpha (lower upper : Limit α) (cost : α) : Triple (fun _ : Stage α => True) (do
      let column ← addColumn "alpha" lower upper cost
      modify fun s => { s with costToGoColumn := some column }) (fun _ _ => True) fun _ => False :=
    Triple.bind (addColumn_ok (by decide) lower upper cost) fun _ =>
      Triple.modify fun _ _ => trivial
  have hsucceeds : Triple (fun _ : Stage α => True)
      (do setUpCostToGo (.ok terms); setUpPool sense pruning lagged)
      (fun _ _ => True) fun _ => False := by
    refine Triple.bind (Q := fun _ _ => True) (Triple.get_bind_any fun m => ?_) fun _ m _ => ?_
    · split_ifs
      · exact Triple.pure fun _ _ => trivial
      · change Triple _ (addCostToGo terms.1 terms.2) _ _
        refine Triple.get_bind_any fun m => ?_
        cases m.sense
        · exact halpha _ _ _
        · exact halpha _ _ _
    · refine ⟨fun _ _ _ => trivial, fun e m' hrun => ?_⟩
      cases hrun
  exact (Triple.and hkeeps hsucceeds).conseq (fun _ hm => ⟨hm, trivial⟩) (fun _ _ hm => hm.1)
    fun _ hm => hm.2

/-! ### Models that fit -/

/-- A model whose links and whose cost-to-go function, as far as they are there, have the sizes of
what they are for. The last two parameters tell what is known to be there. -/
structure Fitted (first lagged equipped linked : Bool) (m : Stage α) : Prop where
  unlinked : first = true → m.links = [] ∧ m.noiseLinks = []
  links : first = false → m.linked = true → m.links.length = m.copies.length ∧
    m.noiseLinks.length = m.noiseCopies.length
  costToGo : ∀ ctg, m.costToGo = some ctg → ctg.lagged = lagged ∧
    ctg.pool.box.lower.length = (m.cutColumns ctg).length ∧
      ctg.pool.box.upper.length = (m.cutColumns ctg).length
  equipped : equipped = true → m.costToGo.isSome = true
  linked : linked = true → m.linked = true

omit [Field α] [LinearOrder α] in
theorem Alone.fitted {m : Stage α} (h : m.Alone) : m.Fitted first lagged false false where
  unlinked := fun _ => ⟨h.links.1, h.links.2.1⟩
  links := by simp [h.links]
  costToGo := by simp [h.costToGo]
  equipped := nofun
  linked := nofun

omit [Field α] [LinearOrder α] in
theorem Fitted.of_bare {m m' : Stage α} (h : m.Fitted first lagged equipped linked)
    (hbare : m'.bare = m.bare) :
    m'.Fitted first lagged equipped linked := by
  have hctg : m'.costToGo.map CostToGo.bare = m.costToGo.map CostToGo.bare :=
    congrArg Stage.costToGo hbare
  have hlinks : m'.links = m.links ∧ m'.noiseLinks = m.noiseLinks :=
    ⟨(congrArg Stage.links hbare :), (congrArg Stage.noiseLinks hbare :)⟩
  have hcopies : m'.copies = m.copies ∧ m'.noiseCopies = m.noiseCopies :=
    ⟨(congrArg Stage.copies hbare :), (congrArg Stage.noiseCopies hbare :)⟩
  have hlinked : m'.linked = m.linked := (congrArg Stage.linked hbare :)
  have hcut (ctg : CostToGo α) : m'.cutColumns ctg = m.cutColumns ctg :=
    (congrArg (fun m : Stage α => m.cutColumns ctg) hbare :)
  refine ⟨?_, ?_, fun ctg' hctg' => ?_, fun he => ?_, ?_⟩
  · rw [hlinks.1, hlinks.2]
    exact h.unlinked
  · rw [hlinks.1, hlinks.2, hcopies.1, hcopies.2, hlinked]
    exact h.links
  · rw [hctg', Option.map_some] at hctg
    obtain ⟨ctg, hsome, hsame⟩ := Option.map_eq_some_iff.mp hctg.symm
    have hlagged : ctg'.lagged = ctg.lagged := (congrArg CostToGo.lagged hsame).symm
    have hbox : ctg'.pool.box = ctg.pool.box :=
      (congrArg (fun ctg : CostToGo α => ctg.pool.box) hsame).symm
    have hcolumns : m.cutColumns ctg' = m.cutColumns ctg := by rw [cutColumns, cutColumns, hlagged]
    rw [hcut, hlagged, hbox, hcolumns]
    exact h.costToGo ctg hsome
  · have hsome := h.equipped he
    rw [← Option.isSome_map (f := CostToGo.bare), hctg, Option.isSome_map]
    exact hsome
  · rw [hlinked]
    exact h.linked

theorem equip_fitted (terms : Except (Fault α) (α × Limit α)) (sense : Sense) (pruning : Bool) :
    Triple (Fitted first lagged equipped linked : Stage α → Prop)
      (do setUpCostToGo terms; setUpPool sense pruning lagged)
      (fun _ => Fitted first lagged true linked) fun _ => True := by
  have hcolumn : Keeps (Fitted first lagged equipped linked : Stage α → Prop)
      (setUpCostToGo terms) :=
    setUpCostToGo_keeps
      (fun m _ _ _ _ hm => ⟨hm.unlinked, hm.links, hm.costToGo, hm.equipped, hm.linked⟩) terms
  refine Triple.bind (hcolumn.conseq (fun _ hm => hm) (fun _ _ hm => hm) fun _ _ => trivial)
    fun _ m hm => ?_
  refine ⟨fun _ m' hrun => ?_, fun _ _ _ => trivial⟩
  obtain rfl := (Prod.mk.inj hrun).2
  rcases hctg : m.costToGo with _ | ctg
  · refine ⟨hm.unlinked, hm.links, fun ctg hctg' => ?_, fun _ => rfl, hm.linked⟩
    obtain rfl := Option.some.inj hctg'
    refine ⟨rfl, ?_, ?_⟩ <;>
      cases lagged <;> simp [newCostToGo, Pool.empty, Box.effective, cutBox, cutColumns]
  · exact ⟨hm.unlinked, hm.links, hm.costToGo, fun _ => by simp [hctg], hm.linked⟩

variable [Numeral α]

theorem setUpLinks_fitted :
    Triple (Fitted first lagged equipped linked : Stage α → Prop) (setUpLinks first)
      (fun _ => Fitted first lagged equipped true) fun _ => True := by
  intro m hm
  cases hlinked : m.linked with
  | true =>
    refine (Triple.get_bind (P := (· = m)) fun s hs => ?_) m rfl
    rw [if_pos (by rw [hs, hlinked])]
    exact Triple.pure fun _ h =>
      h ▸ hs ▸ ⟨hm.unlinked, hm.links, hm.costToGo, hm.equipped, fun _ => hlinked⟩
  | false =>
    refine ((setUpLinks_bare (b := m.bare) hlinked).conseq (fun m' (h : m'.bare = m.bare) => h)
      (fun _ m' h => ?_) fun m' h => trivial) m rfl
    obtain ⟨⟨links, noiseLinks, hbare, hlengths⟩, -⟩ := h
    have hjoined : ({ m with links, noiseLinks, linked := true } : Stage α).Fitted first lagged
        equipped true := by
      refine ⟨fun hfirst => ?_, fun hfirst _ => ?_, hm.costToGo, hm.equipped, fun _ => rfl⟩
      · rw [if_pos hfirst] at hlengths
        rw [hlengths.1, hlengths.2]
        exact hm.unlinked hfirst
      · rw [if_neg (by simp [hfirst])] at hlengths
        exact hlengths
    exact hjoined.of_bare hbare

end

end Recourse.Stage
