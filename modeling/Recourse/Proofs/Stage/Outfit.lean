import Recourse.Proofs.Stage.Fitting
import Recourse.Proofs.Stage.Frame

/-! What a model is joined by: a cost-to-go, and a row for each local copy by which its value is
set. Once it is there it stays, because the rows that are taken away are rows of cuts, and their
identifiers are not those of the links. -/

namespace Recourse.Stage

open Run (Keeps Triple)

variable {α : Type}

def Equipped (m : Stage α) : Prop := m.costToGoColumn.isSome = true ∧ m.costToGo.isSome = true

variable [Field α] [LinearOrder α] {first linked equipped : Bool} {m m' : Stage α}

def Fastens (m : Stage α) (id column : ℕ) : Prop := ∃ r ∈ m.rows, r.id = id ∧ r.Sets column

/-- Whether each local copy has a row by which its value is set. -/
def Fastened (m : Stage α) : Prop :=
  List.Forall₂ m.Fastens m.links m.copies ∧ List.Forall₂ m.Fastens m.noiseLinks m.noiseCopies

/-- A model whose links, if there are any, are not among the rows of its cuts. `linked` and
`equipped` tell how far it is known to be joined; into the first stage nothing comes. -/
structure Outfitted (first linked equipped : Bool) (m : Stage α) : Prop where
  issued : ∀ id ∈ m.linkRows, id < m.issued
  attached : ∀ ctg, m.costToGo = some ctg → ∀ e ∈ ctg.attached, e.2 < m.issued ∧ e.2 ∉ m.linkRows
  fastened : m.linked = true → first = false → m.Fastened
  linked : linked = true → m.linked = true
  equipped : equipped = true → m.Equipped

theorem Alone.outfitted (h : m.Alone) : m.Outfitted first false false where
  issued := by simp [linkRows, h.links]
  attached := by simp [h.costToGo]
  fastened := by simp [h.links]
  linked := nofun
  equipped := nofun

theorem Outfitted.unequipped (h : m.Outfitted first linked equipped) :
    m.Outfitted first linked false :=
  ⟨h.issued, h.attached, h.fastened, h.linked, nofun⟩

theorem Outfitted.unlinked (h : m.Outfitted first linked equipped) :
    m.Outfitted first false equipped :=
  ⟨h.issued, h.attached, h.fastened, nofun, h.equipped⟩

/-! ### Rows -/

theorem Fastened.mono (h : m.Fastened)
    (hframe : m' =
      { m with rows := m'.rows, issued := m'.issued, status := m'.status, solution := m'.solution })
    (hrows : ∀ id ∈ m.linkRows, ∀ column, m.Fastens id column → m'.Fastens id column) :
    m'.Fastened := by
  have himp {ids columns : List ℕ} (hids : ∀ id ∈ ids, id ∈ m.linkRows)
      (h : List.Forall₂ m.Fastens ids columns) :
      List.Forall₂ m'.Fastens ids columns :=
    ((List.forall₂_and_left _ _).mpr ⟨hids, h⟩).imp fun id column h => hrows id h.1 column h.2
  refine ⟨?_, ?_⟩
  · rw [hframe]
    exact himp (fun id => List.mem_append_left _) h.1
  · rw [hframe]
    exact himp (fun id => List.mem_append_right _) h.2

theorem Outfitted.of_rows (h : m.Outfitted first linked equipped)
    (hframe : m' =
      { m with rows := m'.rows, issued := m'.issued, status := m'.status, solution := m'.solution })
    (hissued : m.issued ≤ m'.issued)
    (hrows : ∀ id ∈ m.linkRows, ∀ column, m.Fastens id column → m'.Fastens id column) :
    m'.Outfitted first linked equipped := by
  have hlinkRows : m'.linkRows = m.linkRows := by
    rw [hframe]
    rfl
  have hcostToGo : m'.costToGo = m.costToGo := by rw [hframe]
  refine ⟨fun id hid => ?_, fun ctg hctg e he => ?_, fun hl hfirst => ?_, fun hl => ?_,
    fun he => ?_⟩
  · rw [hlinkRows] at hid
    exact (h.issued id hid).trans_le hissued
  · rw [hcostToGo] at hctg
    rw [hlinkRows]
    obtain ⟨hlt, hne⟩ := h.attached ctg hctg e he
    exact ⟨hlt.trans_le hissued, hne⟩
  · rw [hframe] at hl
    exact (h.fastened hl hfirst).mono hframe hrows
  · rw [hframe]
    exact h.linked hl
  · rw [hframe]
    exact h.equipped he

theorem putRhs_outfitted (id : ℕ) (x : α) :
    Keeps (Outfitted first linked equipped) (putRhs id x) := by
  refine Keeps.iff_on.mpr fun m hm => hm.of_rows rfl le_rfl ?_
  rintro id' - column ⟨r, hr, hid, hsets⟩
  refine ⟨_, List.mem_map_of_mem hr, ?_, ?_⟩
  · split_ifs <;> exact hid
  · split_ifs <;> exact hsets

theorem putRow_outfitted (name : String) (terms : List (ℕ × α)) (relation : Relation) (rhs : α) :
    Triple (Outfitted first linked equipped) (putRow name terms relation rhs)
      (fun id m => m.Outfitted first linked equipped ∧ id < m.issued ∧ id ∉ m.linkRows)
      (Outfitted first linked equipped) := by
  refine fun m hm => ⟨fun id m' hrun => ?_, fun e m' hrun => ?_⟩ <;> cases hrun
  refine ⟨hm.of_rows rfl (Nat.le_succ _) ?_, Nat.lt_succ_self _, fun hid => (hm.issued _ hid).false⟩
  rintro id - column ⟨r, hr, hid, hsets⟩
  exact ⟨r, List.mem_append_left _ hr, hid, hsets⟩

theorem addRow_outfitted (name : String) (terms : List (ℕ × α)) (relation : Relation) (rhs : α) :
    Keeps (Outfitted first linked equipped) (addRow name terms relation rhs) := by
  have hput (name : String) : Keeps (Outfitted first linked equipped)
      (putRow name terms relation rhs) :=
    (putRow_outfitted name terms relation rhs).conseq (fun _ hm => hm) (fun _ _ hm => hm.1)
      fun _ hm => hm
  unfold addRow
  split_ifs
  · exact Triple.throw_bind fun _ hm => hm
  · exact Triple.throw_bind fun _ hm => hm
  · exact Triple.throw_bind fun _ hm => hm
  · exact hput name

theorem removeRows_outfitted {ids : List ℕ} (hm : m.Outfitted first linked equipped)
    (hids : ∀ id ∈ ids, id ∉ m.linkRows) :
    ((removeRows ids : Edit α Unit).on m).2.Outfitted first linked equipped := by
  obtain ⟨status, solution, hrun⟩ := removeRows_on ids m
  rw [hrun]
  refine hm.of_rows rfl le_rfl ?_
  rintro id hid column ⟨r, hr, rfl, hsets⟩
  have hkept : r.id ∉ ids := fun hr' => hids _ hr' hid
  exact ⟨r, List.mem_filter.mpr ⟨hr, by simpa using hkept⟩, rfl, hsets⟩

/-! ### Cuts -/

theorem Outfitted.withCostToGo (h : m.Outfitted first linked equipped)
    (costToGo : Option (CostToGo α)) (hsome : m.costToGo.isSome = true → costToGo.isSome = true)
    (hattached : ∀ ctg, costToGo = some ctg →
      ∀ e ∈ ctg.attached, e.2 < m.issued ∧ e.2 ∉ m.linkRows) :
    Outfitted first linked equipped { m with costToGo } :=
  ⟨h.issued, hattached, h.fastened, h.linked,
    fun he => ⟨(h.equipped he).1, hsome (h.equipped he).2⟩⟩

theorem detach_outfitted : Keeps (Outfitted first linked equipped) (detach : Edit α Unit) := by
  refine Triple.get_bind fun m hm => ?_
  rcases hctg : m.costToGo with _ | ctg
  · exact Triple.pure fun s hs => hs ▸ hm
  dsimp only
  rw [List.partition_eq_filter_filter]
  have hremoved (stale : ℕ × ℕ → Bool) : Triple (· = m)
      (removeRows ((ctg.attached.filter stale).map (·.2)) : Edit α Unit)
      (fun _ s => s.Outfitted first linked equipped ∧ s.costToGo = some ctg)
      (Outfitted first linked equipped) := by
    rintro m rfl
    have hids : ∀ id ∈ (ctg.attached.filter stale).map (·.2), id ∉ m.linkRows := by
      intro id hid
      obtain ⟨e, he, rfl⟩ := List.mem_map.mp hid
      exact (hm.attached ctg hctg e (List.mem_of_mem_filter he)).2
    have hrows := removeRows_outfitted hm hids
    obtain ⟨status, solution, hrun⟩ := removeRows_on ((ctg.attached.filter stale).map (·.2)) m
    rw [hrun] at hrows
    refine ⟨fun _ s hs => ?_, fun e s hs => ?_⟩
    · obtain rfl := (Prod.mk.inj (hrun.symm.trans hs)).2
      exact ⟨hrows, hctg⟩
    · cases hrun.symm.trans hs
  refine Triple.bind (hremoved _) fun _ => Triple.modify fun s hs => ?_
  refine hs.1.withCostToGo _ (fun _ => rfl) fun ctg' hctg' e he => ?_
  obtain rfl := Option.some.inj hctg'
  exact hs.1.attached ctg hs.2 e (List.mem_of_mem_filter he)

theorem onPool_outfitted {β : Type} (act : Run α (Pool α) β) :
    Keeps (Outfitted first linked equipped) (onPool act) := by
  refine Keeps.iff_on.mpr fun m hm => ?_
  rcases hctg : m.costToGo with _ | ctg
  · rwa [onPool_on_none hctg]
  · rw [onPool_on_some hctg]
    refine hm.withCostToGo _ (fun _ => rfl) fun ctg' hctg' => ?_
    obtain rfl := Option.some.inj hctg'
    exact hm.attached ctg hctg

variable [Numeral α]

theorem attachCut_outfitted (lagged : Bool) (c : Cut α) :
    Keeps (Outfitted first linked equipped) (attachCut lagged c) := by
  refine .get_bind fun m => .bind .ofExcept fun _ => ?_
  rcases m.costToGoColumn with _ | column
  · exact .throw
  · dsimp only
    split_ifs
    · exact Triple.throw_bind fun _ hm => hm
    · refine Triple.bind (putRow_outfitted _ _ _ _) fun id => Triple.modify fun m hm => ?_
      obtain ⟨hm, hid⟩ := hm
      refine hm.withCostToGo _ (fun h => by rwa [Option.isSome_map]) fun ctg hctg e he => ?_
      obtain ⟨old, hold, rfl⟩ := Option.map_eq_some_iff.mp hctg
      rcases List.mem_append.mp he with he | he
      · exact hm.attached old hold e he
      · obtain rfl := List.mem_singleton.mp he
        exact hid

/-- Whatever solving a model consists of leaves its cost-to-go and its links where they are. -/
theorem outfitted_steady : Steady (Outfitted first linked equipped : Stage α → Prop) where
  putRhs := putRhs_outfitted
  attach := attach_keeps attachCut_outfitted detach_outfitted
  optimize := fun lp phase sample => Keeps.iff_on.mpr fun m hm => by
    simp only [Run.on, optimize]
    split <;> exact hm.of_rows rfl le_rfl fun _ _ _ h => h

/-! ### Joining -/

omit [Numeral α] in
theorem setUpCostToGo_column (terms : Except (Fault α) (α × Limit α)) :
    Triple (fun _ => True) (setUpCostToGo terms) (fun _ m => m.costToGoColumn.isSome = true)
      fun _ => True := by
  refine Triple.get_bind fun m _ => ?_
  split_ifs with hcolumn
  · exact Triple.pure fun s hs => hs ▸ hcolumn
  · refine Triple.bind (Q := fun _ s => s = m)
      (Triple.ofExcept (fun _ _ hs _ => hs) fun _ _ => trivial) fun terms => ?_
    refine (Junction.addCostToGo_triple terms.1 terms.2).conseq (fun _ hs => hs) (fun _ s hs => ?_)
      fun _ hs => hs
    rw [hs]
    rfl

omit [Numeral α] in
theorem setUpCostToGo_outfitted (terms : Except (Fault α) (α × Limit α)) :
    Keeps (Outfitted first linked false : Stage α → Prop) (setUpCostToGo terms) :=
  setUpCostToGo_keeps (fun _ _ _ _ _ hm => ⟨hm.issued, hm.attached, hm.fastened, hm.linked, nofun⟩)
    terms

omit [Numeral α] in
theorem setUpPool_outfitted (sense : Sense) (pruning lagged : Bool) :
    Keeps (Outfitted first linked equipped : Stage α → Prop) (setUpPool sense pruning lagged) := by
  refine Keeps.iff_on.mpr fun m hm => ?_
  simp only [Run.on, setUpPool]
  rcases hctg : m.costToGo with _ | ctg
  · refine hm.withCostToGo _ (fun _ => rfl) fun ctg hctg e he => ?_
    obtain rfl := Option.some.inj hctg
    cases he
  · exact hm

omit [Numeral α] in
theorem equip_outfitted (terms : Except (Fault α) (α × Limit α)) (sense : Sense)
    (pruning lagged : Bool) :
    Triple (Outfitted first linked equipped)
      (do setUpCostToGo terms; setUpPool sense pruning lagged)
      (fun _ => Outfitted first linked true) fun _ => True := by
  refine Triple.bind
    ((Triple.and (setUpCostToGo_outfitted terms) (setUpCostToGo_column terms)).conseq
    (fun _ hm => ⟨hm.unequipped, trivial⟩) (fun _ _ hm => hm) fun _ _ => trivial) fun _ m hm => ?_
  refine ⟨fun _ s hrun => ?_, fun _ _ _ => trivial⟩
  have hkept := Keeps.iff_on.mp (setUpPool_outfitted sense pruning lagged) m hm.1
  rw [hrun] at hkept
  obtain rfl := (Prod.mk.inj hrun).2
  refine ⟨hkept.issued, hkept.attached, hkept.fastened, hkept.linked, fun _ => ?_⟩
  rcases hctg : m.costToGo with _ | ctg
  · exact ⟨hm.2, rfl⟩
  · exact ⟨hm.2, Option.isSome_of_eq_some hctg⟩

omit [Numeral α] in
theorem fastens_of_sets {news : List (Row α)} {columns : List ℕ}
    (hnews : List.Forall₂ Row.Sets columns news) (hrows : ∀ r ∈ news, r ∈ m.rows) :
    List.Forall₂ m.Fastens (news.map (·.id)) columns := by
  rw [List.forall₂_map_left_iff]
  refine ((List.forall₂_and_left _ _).mpr ⟨hrows, hnews.flip⟩).imp fun r column h => ?_
  exact ⟨r, h.1, rfl, h.2⟩

omit [Numeral α] in
theorem Outfitted.of_grown {s : Stage α} {news : List (Row α)}
    (h : s.Outfitted first linked equipped) (hm : Grown s news m) :
    m.Outfitted first linked equipped := by
  refine h.of_rows ?_ (hm.issued ▸ Nat.le_add_right _ _) ?_
  · conv_lhs => rw [hm.frame]
    rw [hm.frame]
  rintro id - column ⟨r, hr, hid, hsets⟩
  rw [hm.frame]
  exact ⟨r, List.mem_append_left _ hr, hid, hsets⟩

omit [Numeral α] in
/-- A model is linked once it has rows that set its copies, under the identifiers that come next. -/
theorem Outfitted.link {s : Stage α} {news more : List (Row α)}
    (h : s.Outfitted first linked equipped) (hm : Grown s (news ++ more) m)
    (hnews : List.Forall₂ Row.Sets s.copies news)
    (hmore : List.Forall₂ Row.Sets s.noiseCopies more) :
    Outfitted first true equipped
      { m with links := news.map (·.id), noiseLinks := more.map (·.id), linked := true } := by
  have hgrown := h.of_grown hm
  have hrows : m.rows = s.rows ++ (news ++ more) := by rw [hm.frame]
  have hcopies : m.copies = s.copies ∧ m.noiseCopies = s.noiseCopies := by
    rw [hm.frame]
    exact ⟨rfl, rfl⟩
  have hids : ∀ id ∈ news.map (·.id) ++ more.map (·.id), s.issued ≤ id ∧ id < m.issued := by
    intro id hid
    rw [← List.map_append, hm.ids, List.mem_range'_1] at hid
    exact ⟨hid.1, hm.issued ▸ hid.2⟩
  refine ⟨fun id hid => (hids id hid).2, fun ctg hctg e he => ?_, fun _ _ => ?_, fun _ => rfl,
    hgrown.equipped⟩
  · have hbefore : s.costToGo = some ctg := by
      rw [← hctg, hm.frame]
    have hlt := (h.attached ctg hbefore e he).1
    exact ⟨(hgrown.attached ctg hctg e he).1, fun hid => absurd (hids e.2 hid).1 (by omega)⟩
  · refine ⟨?_, ?_⟩
    · rw [← hcopies.1] at hnews
      exact fastens_of_sets (m := m) hnews fun r hr =>
        hrows ▸ List.mem_append_right _ (List.mem_append_left _ hr)
    · rw [← hcopies.2] at hmore
      exact fastens_of_sets (m := m) hmore fun r hr =>
        hrows ▸ List.mem_append_right _ (List.mem_append_right _ hr)

omit [Numeral α] in
theorem addLinks_outfitted (columns : List ℕ) (name : String) :
    Keeps (Outfitted first linked equipped : Stage α → Prop) (addLinks columns name) :=
  .get_bind fun _ => Keeps.of_triple (Triple.mapM (S := fun _ _ => True) fun _ _ =>
    (addRow_outfitted _ _ _ _).and_pure trivial)

theorem fixInitial_outfitted (pairs : List (ℕ × Datum α)) :
    Keeps (Outfitted first linked equipped : Stage α → Prop) (fixInitial pairs) := by
  induction pairs with
  | nil => exact .pure
  | cons cd pairs ih =>
    exact .ite (Keeps.bind .ofExcept fun x => (addRow_outfitted _ _ _ _).bind fun _ => ih) ih

theorem setUpLinks_outfitted :
    Triple (Outfitted first linked equipped : Stage α → Prop) (setUpLinks first)
      (fun _ => Outfitted first true equipped)
      (Outfitted first linked equipped) := by
  refine Triple.get_bind fun s hs => ?_
  have hstart : ∀ m, m = s → Grown s [] m ∧ m.Outfitted first linked equipped := by
    rintro m rfl
    exact ⟨Grown.refl m, hs⟩
  split_ifs with hlinked hfirst
  · exact Triple.pure fun m hm =>
      hm ▸ ⟨hs.issued, hs.attached, hs.fastened, fun _ => hlinked, hs.equipped⟩
  · refine Triple.bind ((fixInitial_outfitted (s.copies.zip s.initial)).conseq
      (fun m hm => (hstart m hm).2)
      (fun _ _ hm => hm) fun _ hm => hm) fun _ => Triple.modify fun m hm => ?_
    exact ⟨hm.issued, hm.attached, fun _ h => by simp [hfirst] at h, fun _ => rfl, hm.equipped⟩
  · refine Triple.bind
      ((Triple.and (addLinks_triple s.copies _) (addLinks_outfitted s.copies _)).conseq hstart
      (fun _ _ hm => hm) fun _ hm => hm.2) fun links m hm => ?_
    obtain ⟨⟨rfl, news, hm, hnews⟩, hkept⟩ := hm
    rw [List.nil_append] at hm
    refine Triple.bind
      ((Triple.and (addLinks_triple s.noiseCopies _) (addLinks_outfitted s.noiseCopies _)).conseq
      (fun _ hm => hm) (fun _ _ hm => hm) fun _ hm => hm.2) (fun noiseLinks m hall => ?_) m
      ⟨hm, hkept⟩
    obtain ⟨⟨rfl, more, hall, hmore⟩, -⟩ := hall
    have hlinks : List.range' (s.issued + ([] : List (Row α)).length) s.copies.length = news.map
        (·.id) := by
      rw [hnews.length_eq]
      exact hm.ids.symm
    have hnoiseLinks : List.range' (s.issued + news.length) s.noiseCopies.length = more.map
        (·.id) := by
      have hids := hall.ids
      rw [List.map_append, List.length_append, ← List.range'_append_1, hm.ids] at hids
      rw [hmore.length_eq]
      exact (List.append_cancel_left hids).symm
    rw [hlinks, hnoiseLinks]
    refine ⟨fun _ m' hrun => ?_, fun e m' hrun => ?_⟩
    · obtain rfl := (Prod.mk.inj hrun).2
      exact hs.link (m := m) hall hnews hmore
    · cases (Prod.mk.inj hrun).1

end Recourse.Stage
