import Recourse.Proofs.Crew
import Recourse.Proofs.Exchange.CutTable
import Recourse.Proofs.Exchange.Folder
import Recourse.Proofs.Multistage.Pools

/-! Cuts that are written to files and read into a problem that was newly constructed. Each model
finds its own file, each row of it becomes the cut that it was made of, and the pool takes all of
them, since none is dominated by another one. -/

namespace Recourse

open Csv (Faithful)

variable {α : Type}

/-! ### Problems of one shape -/

def Stage.withPool (m : Stage α) (ctg : CostToGo α) (pool : Pool α) : Stage α :=
  { m with costToGo := some { ctg with pool } }

/-- Two models with as many states and with pools of one kind. -/
structure Stage.SameShape (m m' : Stage α) : Prop where
  states : m'.states.length = m.states.length
  pool : m'.pool?.map Pool.bare = m.pool?.map Pool.bare

theorem Stage.SameShape.refl (m : Stage α) : m.SameShape m := ⟨rfl, rfl⟩

theorem Stage.SameShape.of_bare {m m₀ m' : Stage α} (h : m₀.SameShape m') (hm : m.bare = m₀.bare) :
    m.SameShape m' where
  states := h.states.trans (congrArg (fun m : Stage α => m.states.length) hm.symm :)
  pool := by rw [h.pool, ← pool?_bare, ← hm, pool?_bare]

structure Multistage.SameShape (P Q : Multistage α) : Prop where
  horizon : Q.horizon = P.horizon
  models : ∀ t k, Option.Rel Stage.SameShape (P.stageAt t k) (Q.stageAt t k)

namespace Multistage

variable {P Q : Multistage α} {t k : ℕ} {m m' : Stage α}

theorem SameShape.refl (P : Multistage α) : P.SameShape P where
  horizon := rfl
  models t k := by
    rcases P.stageAt t k with _ | m
    · exact .none
    · exact .some (.refl m)

theorem SameShape.of_frame {P₀ : Multistage α} (h : P₀.SameShape Q) (hP : P.frame = P₀.frame) :
    P.SameShape Q where
  horizon := h.horizon.trans (congrArg Multistage.horizon hP.symm :)
  models := fun t k => by
    have hstage := h.models t k
    rcases hm : P.stageAt t k with _ | m
    · have hnone : P₀.stageAt t k = none := by
        rcases hm₀ : P₀.stageAt t k with _ | m₀
        · rfl
        · obtain ⟨m, hm', -⟩ := exists_of_frame hP.symm hm₀
          cases hm.symm.trans hm'
      rwa [hnone] at hstage
    · obtain ⟨m₀, hm₀, hbare⟩ := exists_of_frame hP hm
      rcases hm' : Q.stageAt t k with _ | m' <;> rw [hm₀, hm'] at hstage <;> cases hstage
      exact .some (Stage.SameShape.of_bare ‹_› hbare.symm)

theorem put_self (h : P.stageAt t k = some m) : P.put t k m = P := by
  obtain ⟨ms, hms, hm⟩ := stageAt_eq_some.mp h
  obtain ⟨ht, rfl⟩ := List.getElem?_eq_some_iff.mp hms
  obtain ⟨hk, rfl⟩ := List.getElem?_eq_some_iff.mp hm
  simp [put, ht]

theorem put_put (P : Multistage α) (t k : ℕ) (m m' : Stage α) :
    (P.put t k m).put t k m' = P.put t k m' := by
  by_cases ht : t < P.models.length
  · simp [put, ht]
  · simp [put, List.set_eq_of_length_le (not_lt.mp ht)]

end Multistage

namespace CutFiles

variable {P : Multistage α} {t k : ℕ} {m : Stage α} {ctg : CostToGo α} {d : Desk α}
  {start base : String}

theorem onPool_on {β : Type} (act : Run α (Pool α) β) (hm : d.problem.stageAt t k = some m)
    (hctg : m.costToGo = some ctg) :
    (onProblem (Multistage.onModel t k (Stage.onPool act))).on d = ((act.on ctg.pool).1, { d with
      problem := d.problem.put t k
        { m with costToGo := some { ctg with pool := (act.on ctg.pool).2 } } }) := by
  rw [onProblem, Run.zoom_on, Multistage.onModel_on_some hm, Stage.onPool_on_some hctg]

/-! ### Files -/

theorem writeFile_on (hstart : Text.fileName? start = some base) {suffix : String}
    (hsuffix : '/' ∉ suffix.toList) (text : String) (d : Desk α) :
    (writeFile (start ++ suffix) text).on d =
    (.ok (), { d with folder := d.folder.write (base ++ suffix) text }) := by
  rw [writeFile, Text.fileName?_append hsuffix hstart]
  rfl

theorem contents_eq (hstart : Text.fileName? start = some base) {suffix text : String}
    (hsuffix : '/' ∉ suffix.toList) {folder : Folder}
    (hlookup : folder.lookup (base ++ suffix) = some text) :
    contents (α := α) folder (start ++ suffix) = Csv.parse text := by
  rw [contents, Text.fileName?_append hsuffix hstart]
  simp only [Option.bind_some, hlookup]

/-! ### Places -/

/-- A place of a problem: a stage, a Markov state, and the model that is there. -/
abbrev Place (α : Type) := ℕ × ℕ × Stage α

def Apart (x y : Place α) : Prop := (x.1, x.2.1) ≠ (y.1, y.2.1)

theorem Apart.name_ne {x y : Place α} (h : Apart x y) :
    base ++ tableEnd x.1 x.2.1 ≠ base ++ tableEnd y.1 y.2.1 := by
  intro hname
  obtain ⟨ht, hk⟩ := tableEnd_injective (String.append_right_inj base |>.mp hname)
  exact h (Prod.ext ht hk)

theorem mem_places {x : Place α} : x ∈ places P ↔
    x.1 + 1 < P.horizon ∧ P.stageAt x.1 x.2.1 = some x.2.2 := by
  obtain ⟨t, k, m⟩ := x
  constructor
  · intro hx
    obtain ⟨⟨ms, t'⟩, hms, hx⟩ := List.mem_flatMap.mp hx
    obtain ⟨⟨m', k'⟩, hm, heq⟩ := List.mem_map.mp hx
    cases heq
    rw [List.mem_zipIdx_iff_getElem?] at hms hm
    rw [List.getElem?_take] at hms
    split_ifs at hms with ht
    exact ⟨by dsimp only; omega, Multistage.stageAt_eq_some.mpr ⟨ms, hms, hm⟩⟩
  · rintro ⟨ht, hm⟩
    obtain ⟨ms, hms, hm⟩ := Multistage.stageAt_eq_some.mp hm
    have htake : (P.models.take (P.horizon - 1))[t]? = some ms := by
      dsimp only at ht
      rw [List.getElem?_take_of_lt (by omega), hms]
    refine List.mem_flatMap.mpr ⟨(ms, t), List.mem_zipIdx_iff_getElem?.mpr htake,
      List.mem_map.mpr ⟨(m, k), ?_, rfl⟩⟩
    exact List.mem_zipIdx_iff_getElem?.mpr hm

theorem places_apart (P : Multistage α) : (places P).Pairwise Apart := by
  have hindex {β : Type} (xs : List β) : xs.zipIdx.Pairwise fun a b => a.2 ≠ b.2 := by
    have hrange : (xs.zipIdx.map (·.2)).Pairwise (· < ·) := by
      rw [List.zipIdx_map_snd]
      exact List.pairwise_lt_range' 1
    exact (List.pairwise_map.mp hrange).imp fun hlt => hlt.ne
  refine List.pairwise_flatMap.mpr ⟨fun x _ => ?_, ?_⟩
  · refine List.pairwise_map.mpr ((hindex x.1).imp fun hne heq => hne ?_)
    exact (Prod.mk.inj heq).2
  · refine (hindex _).imp fun hne x hx y hy heq => hne ?_
    obtain ⟨_, -, rfl⟩ := List.mem_map.mp hx
    obtain ⟨_, -, rfl⟩ := List.mem_map.mp hy
    exact (Prod.mk.inj heq).1

/-! ### Where the cuts come from -/

theorem readProvenance_eq (hstart : Text.fileName? start = some base) {x : Provenance}
    (hname : Faithful x.name) (hauthor : Faithful x.author) (hdescription : Faithful x.description)
    {folder : Folder}
    (hlookup : folder.lookup (base ++ "info.csv") = some (provenanceText x)) :
    readProvenance (α := α) folder start = .ok x := by
  have hparse : Csv.parse (α := α) (provenanceText x) =
      .ok { header := ["name", "author", "description"]
            rows := [[x.name, x.author, x.description]] } := by
    refine Csv.parse_render (by simp) (by simp) ?_ ?_
    · have hheader : Faithful "name" ∧ Faithful "author" ∧ Faithful "description" := by decide
      simpa [hname, hauthor, hdescription] using hheader
    · have hline : (Csv.line ["name", "author", "description"]).toList.head? = some 'n' := by decide
      rw [Csv.render, List.map_cons, String.join_cons, String.toList_append,
        List.head?_append, hline]
      simp
  have hcontents : contents (α := α) folder (provenanceName start) =
      .ok { header := ["name", "author", "description"]
            rows := [[x.name, x.author, x.description]] } := by
    rw [provenanceName, contents_eq hstart (by decide) hlookup, hparse]
  rw [readProvenance, hcontents]
  rfl

end CutFiles

variable [Scalar α] [Numeral α]

/-! ### Pools -/

/-- A cut that is read back is the same affine function. -/
theorem Cut.Tabular.alike_reread {states columns : ℕ} {c : Cut α} (h : c.Tabular states columns)
    (t k : ℕ) :
    c.Alike (c.reread t k) where
  intercept := rfl
  gradient := rfl
  hasText := by
    have hentries : c.row.any Datum.isText = false := by
      rw [List.any_eq_false]
      exact fun d hd => by simp [(h.readable d hd).not_isText]
    have hreread : (c.reread t k).row.any Datum.isText = false := by
      rw [List.any_eq_false]
      intro d hd
      obtain ⟨x, -, rfl⟩ := List.mem_map.mp (show d ∈ c.gradient.map Datum.real from hd)
      simp [Datum.isText]
    exact hreread.trans hentries.symm

namespace CutFiles

variable {P Q : Multistage α} {t k : ℕ} {m : Stage α} {ctg : CostToGo α} {d : Desk α}
  {start base : String}

def addRow (states t k : ℕ) (row : List (Datum α)) : Run α (Desk α) Unit := do
  let cut ← Run.ofExcept (cutOfRow states t k row)
  let _ ← onProblem (Multistage.onModel t k (Stage.onPool (Pool.add cut)))

theorem addRow_on {states columns : ℕ} {c : Cut α} (hm : d.problem.stageAt t k = some m)
    (hctg : m.costToGo = some ctg) (hc : c.Tabular states columns)
    (happart : ctg.pool.pruning = true → ∀ d ∈ ctg.pool.cuts, ctg.pool.Incomparable d c) :
    (addRow states t k ((c.gradient ++ [c.intercept]).map Datum.real)).on d = (.ok (), { d with
      problem := d.problem.put t k (m.withPool ctg (ctg.pool.stored (c.reread t k))) }) := by
  have hadd := Pool.add_incomparable (p := ctg.pool) (c := c.reread t k) fun hpruning d hd =>
    (happart hpruning d hd).alike ⟨rfl, rfl, rfl⟩ (hc.alike_reread t k)
  have hrow :
      (Run.ofExcept (cutOfRow states t k ((c.gradient ++ [c.intercept]).map Datum.real))).on d =
      (.ok (c.reread t k), d) := by
    rw [hc.cutOfRow_eq, Run.ofExcept_on]
  have hpool := onPool_on (Pool.add (c.reread t k)) hm hctg
  rw [hadd] at hpool
  rw [addRow, Run.bind_ok _ hrow, Run.bind_ok _ hpool]
  rfl

/-- The cuts that rows spell are added to a pool, in which they are all stored. -/
theorem addRows_on {states columns : ℕ} {cs : List (Cut α)} (hm : d.problem.stageAt t k = some m)
    (hctg : m.costToGo = some ctg) (hcs : ∀ c ∈ cs, c.Tabular states columns)
    (hapart : ctg.pool.pruning = true → (ctg.pool.cuts ++ cs).Pairwise ctg.pool.Incomparable) :
    ((cs.map fun c => (c.gradient ++ [c.intercept]).map Datum.real).forM (addRow states t k)).on d =
    (.ok (), { d with
      problem := d.problem.put t k
        (m.withPool ctg ((cs.map (Cut.reread t k)).foldl Pool.stored ctg.pool)) }) := by
  induction cs generalizing d m ctg with
  | nil =>
    have hsame : m.withPool ctg ctg.pool = m := by rw [Stage.withPool, ← hctg]
    rw [List.map_nil, List.map_nil, List.foldl_nil, hsame, Multistage.put_self hm]
    rfl
  | cons c cs ih =>
    have hc := hcs c List.mem_cons_self
    have hstep := addRow_on hm hctg hc fun hpruning d hd =>
      (List.pairwise_append.mp (hapart hpruning)).2.2 d hd c List.mem_cons_self
    set d₁ : Desk α :=
      { d with problem := d.problem.put t k (m.withPool ctg (ctg.pool.stored (c.reread t k))) }
      with hd₁
    have hm₁ : d₁.problem.stageAt t k = some (m.withPool ctg (ctg.pool.stored (c.reread t k))) :=
      Multistage.stageAt_put_self hm _
    have hrest := ih hm₁ rfl (fun c hc => hcs c (List.mem_cons_of_mem _ hc)) fun hpruning =>
      Pool.pairwise_stored (hapart hpruning) (hc.alike_reread t k)
    rw [List.map_cons, List.map_cons, List.foldl_cons]
    refine (Run.bind_ok _ hstep).trans (hrest.trans ?_)
    rw [hd₁]
    dsimp only
    rw [Multistage.put_put]
    rfl

def tableFile (m : Stage α) (ctg : CostToGo α) : String :=
  Csv.render (m.tableHeader ctg :: m.tableBody ctg)

theorem writeTable_on (hstart : Text.fileName? start = some base) (hctg : m.costToGo = some ctg)
    (h : m.Tabular ctg) (t k : ℕ) (d : Desk α) : (writeTable start t k m).on d =
      (.ok (), { d with folder := d.folder.write (base ++ tableEnd t k) (tableFile m ctg) }) := by
  have htext : (Run.ofExcept (tableText m ctg)).on d = (.ok (tableFile m ctg), d) := by
    rw [h.tableText_eq hctg, Run.ofExcept_on]
    rfl
  rw [writeTable, hctg]
  dsimp only
  rw [Run.bind_ok _ htext, tableName_eq, writeFile_on hstart (slash_tableEnd t k)]

theorem writeTable_on_none (hctg : m.costToGo = none) (t k : ℕ) (d : Desk α) :
    (writeTable start t k m).on d = (.ok (), d) := by
  rw [writeTable, hctg]
  rfl

theorem writeTables_on (hstart : Text.fileName? start = some base) (xs : List (Place α))
    (htabular : ∀ x ∈ xs, ∀ ctg, x.2.2.costToGo = some ctg → x.2.2.Tabular ctg)
    (hapart : xs.Pairwise Apart) (d : Desk α) :
    ∃ folder, (xs.forM fun (t, k, m) => writeTable start t k m).on d = (.ok (), { d with folder }) ∧
      (∀ x ∈ xs, ∀ ctg, x.2.2.costToGo = some ctg →
        folder.lookup (base ++ tableEnd x.1 x.2.1) = some (tableFile x.2.2 ctg)) ∧
      ∀ name, (∀ x ∈ xs, name ≠ base ++ tableEnd x.1 x.2.1) →
        folder.lookup name = d.folder.lookup name := by
  induction xs generalizing d with
  | nil => exact ⟨d.folder, rfl, by simp, fun _ _ => rfl⟩
  | cons x xs ih =>
    obtain ⟨happart, hapart⟩ := List.pairwise_cons.mp hapart
    have ih := ih (fun y hy => htabular y (List.mem_cons_of_mem _ hy)) hapart
    have htabular := htabular x List.mem_cons_self
    obtain ⟨t, k, m⟩ := x
    rcases hctg : m.costToGo with _ | ctg
    · obtain ⟨folder, hrun, hfiles, hothers⟩ := ih d
      refine ⟨folder, (Run.bind_ok _ (writeTable_on_none hctg t k d)).trans hrun,
        fun y hy ctg hy' => ?_, fun name hname => ?_⟩
      · rcases List.mem_cons.mp hy with rfl | hy
        · cases hctg.symm.trans hy'
        · exact hfiles y hy ctg hy'
      · exact hothers name fun y hy => hname y (List.mem_cons_of_mem _ hy)
    · have hwrite := writeTable_on hstart hctg (htabular ctg hctg) t k d
      obtain ⟨folder, hrun, hfiles, hothers⟩ :=
        ih { d with folder := d.folder.write (base ++ tableEnd t k) (tableFile m ctg) }
      refine ⟨folder, (Run.bind_ok _ hwrite).trans hrun,
        fun y hy ctg' hy' => ?_, fun name hname => ?_⟩
      · rcases List.mem_cons.mp hy with rfl | hy
        · obtain rfl := Option.some.inj (hctg.symm.trans hy')
          rw [hothers _ fun y hy => (happart y hy).name_ne]
          exact Folder.lookup_write_self
        · exact hfiles y hy ctg' hy'
      · rw [hothers name fun y hy => hname y (List.mem_cons_of_mem _ hy)]
        exact Folder.lookup_write_of_ne (hname (t, k, m) List.mem_cons_self)

def restored (t k : ℕ) (cs : List (Cut α)) : List (Cut α) :=
  cs.mapIdx fun i c => { c.reread t k with index := some i }

/-- A model into which the cuts of `m₀` can be read from a file: it is of the same shape, and no cut
has arrived there. -/
structure Awaits (folder : Folder) (name : String) (m₀ m : Stage α) : Prop where
  shape : m₀.SameShape m
  unused : m.PoolHas Pool.Unused
  thinned : m₀.PoolHas Pool.Thinned
  tabular : ∀ ctg, m₀.costToGo = some ctg → m₀.Tabular ctg
  file : ∀ ctg, m₀.costToGo = some ctg → folder.lookup name = some (tableFile m₀ ctg)

theorem readTable_on (hstart : Text.fileName? start = some base) {folder : Folder} {m₀ : Stage α}
    (h : Awaits folder (base ++ tableEnd t k) m₀ m) (hm : Q.stageAt t k = some m) :
    ∃ m', (readTable start t k).on { problem := Q, folder } =
      (.ok (), { problem := Q.put t k m', folder }) ∧
      m'.cuts = restored t k m₀.cuts := by
  have hmodel : Q.model t k = .ok m := by rw [Multistage.model_eq, hm]
  have hpool := h.shape.pool
  rw [readTable, Run.bind_ok _ (Run.get_on _), Run.ofExcept_bind hmodel]
  rcases hctg : m.costToGo with _ | ctg <;> rcases hctg₀ : m₀.costToGo with _ | ctg₀ <;>
    simp only [Stage.pool?, hctg, hctg₀, Option.map_some, Option.map_none] at hpool
  · refine ⟨m, by rw [Multistage.put_self hm]; rfl, ?_⟩
    rw [Stage.cuts, Stage.cuts, Stage.pool?, Stage.pool?, hctg, hctg₀]
    rfl
  · cases hpool
  · cases hpool
  · have hbare : ctg.pool.bare = ctg₀.pool.bare := Option.some.inj hpool
    have htabular := h.tabular ctg₀ hctg₀
    obtain ⟨sense, box, pruning, hempty⟩ := h.unused ctg.pool (by rw [Stage.pool?, hctg]; rfl)
    have hcuts : ctg.pool.cuts = [] := by rw [hempty]; rfl
    have hissued : ctg.pool.issued = 0 := by rw [hempty]; rfl
    have hcontents : contents folder (tableName start t k) =
        (.ok { header := m₀.tableHeader ctg₀, rows := m₀.tableBody ctg₀ } : Except
        (Fault α) _) := by
      rw [tableName_eq, contents_eq hstart (slash_tableEnd t k) (h.file ctg₀ hctg₀), tableFile,
        htabular.parse_table]
    have hadd := addRows_on (d := { problem := Q, folder }) hm hctg
      (fun c (hc : c ∈ ctg₀.pool.cuts) => h.shape.states ▸ htabular.cuts c hc) fun hpruning => by
        have hpruning₀ : ctg₀.pool.pruning = ctg.pool.pruning :=
          (congrArg Pool.pruning hbare.symm :)
        rw [hcuts, List.nil_append]
        exact (h.thinned ctg₀.pool (by rw [Stage.pool?, hctg₀]; rfl) (hpruning₀.trans hpruning)).imp
          fun hcd => hcd.of_bare hbare
    refine ⟨m.withPool ctg ((ctg₀.pool.cuts.map (Cut.reread t k)).foldl Pool.stored ctg.pool), ?_,
      ?_⟩
    · rw [if_neg (by simp), Run.ofExcept_bind hcontents, Run.ofExcept_bind htabular.cutRows_eq]
      exact hadd
    · change (List.foldl Pool.stored ctg.pool _).cuts = _
      rw [Pool.cuts_foldl_stored, hcuts, hissued, List.nil_append, Stage.cuts, Stage.pool?, hctg₀]
      exact List.ext_getElem (by simp [restored]) fun i hi hi' => by simp [restored]

theorem readTables_on (hstart : Text.fileName? start = some base) {folder : Folder}
    {xs : List (Place α)}
    (hawaits : ∀ x ∈ xs,
      ∃ m₀, P.stageAt x.1 x.2.1 = some m₀ ∧ Awaits folder (base ++ tableEnd x.1 x.2.1) m₀ x.2.2)
    (hplaces : ∀ x ∈ xs, Q.stageAt x.1 x.2.1 = some x.2.2) (hapart : xs.Pairwise Apart) :
    ∃ Q', (xs.forM fun (t, k, _) => readTable start t k).on
      { problem := Q, folder } = (.ok (), { problem := Q', folder }) ∧
      (∀ x ∈ xs, Q'.cutsAt x.1 x.2.1 = restored x.1 x.2.1 (P.cutsAt x.1 x.2.1)) ∧
      (∀ t k, (∀ x ∈ xs, (x.1, x.2.1) ≠ (t, k)) → Q'.stageAt t k = Q.stageAt t k) ∧
      Q'.provenance = Q.provenance := by
  induction xs generalizing Q with
  | nil => exact ⟨Q, rfl, by simp, fun _ _ _ => rfl, rfl⟩
  | cons x xs ih =>
    obtain ⟨happart, hapart⟩ := List.pairwise_cons.mp hapart
    have hx := hplaces x List.mem_cons_self
    obtain ⟨m₀, hm₀, hready⟩ := hawaits x List.mem_cons_self
    obtain ⟨m', hread, hcuts⟩ := readTable_on hstart hready hx
    have helsewhere {t k : ℕ} (hne : (x.1, x.2.1) ≠ (t, k)) :
        (Q.put x.1 x.2.1 m').stageAt t k = Q.stageAt t k :=
      Multistage.stageAt_put_of_ne (fun ht hk => hne (Prod.ext ht.symm hk.symm)) m'
    obtain ⟨Q', hrun, hrestored, hothers, hprovenance⟩ :=
      ih (fun y hy => hawaits y (List.mem_cons_of_mem _ hy))
      (fun y hy => (helsewhere (happart y hy)).trans (hplaces y (List.mem_cons_of_mem _ hy))) hapart
    refine ⟨Q', (Run.bind_ok _ hread).trans hrun, fun y hy => ?_, fun t k hne => ?_, hprovenance⟩
    · rcases List.mem_cons.mp hy with rfl | hy
      · have hself : Q'.stageAt y.1 y.2.1 = some m' := by
          rw [hothers _ _ fun z hz => (happart z hz).symm]
          exact Multistage.stageAt_put_self hx m'
        rw [Multistage.cutsAt_eq hself, Multistage.cutsAt_eq hm₀, hcuts]
      · exact hrestored y hy
    · rw [hothers t k fun y hy => hne y (List.mem_cons_of_mem _ hy), helsewhere
        (hne x List.mem_cons_self)]

end CutFiles

namespace Multistage

open CutFiles

/-- A problem whose models have no cost-to-go functions yet. -/
def Plain (p : Multistage α) : Prop := ∀ t k m, p.stageAt t k = some m → m.costToGo = none

/-- A problem whose cuts can be exchanged: in each model the columns of the table can be told apart,
and its numbers and names can be read. -/
def Exchangeable (P : Multistage α) : Prop :=
  ∀ t k m ctg, t + 1 < P.horizon → P.stageAt t k = some m → m.costToGo = some ctg → m.Tabular ctg

variable {p q P₀ Q₀ P Q : Multistage α} {start base : String} {folder : Folder}

omit [Numeral α] in
theorem Plain.unused (hp : p.Plain) : p.PoolsHave Pool.Unused := by
  intro t k m hm pool hpool
  rw [Stage.pool?, hp t k m hm] at hpool
  cases hpool

theorem writeCuts_on (hprepared : P.prepared = true) (hP : P.Exchangeable)
    (hstart : Text.fileName? start = some base) (x : Provenance) (folder : Folder) : ∃ files,
      (writeCuts start (.text x.name) (.text x.author) (.text x.description)).on
      { problem := P, folder } =
        (.ok (), { problem := P, folder := files }) ∧
      files.lookup (base ++ "info.csv") = some (provenanceText x) ∧
      ∀ t k m ctg, t + 1 < P.horizon → P.stageAt t k = some m → m.costToGo = some ctg →
        files.lookup (base ++ tableEnd t k) = some (tableFile m ctg) := by
  obtain ⟨files, hrun, hfiles, hothers⟩ := writeTables_on hstart (CutFiles.places P)
    (fun x hx ctg hctg => hP _ _ _ ctg (mem_places.mp hx).1 (mem_places.mp hx).2 hctg)
    (places_apart P)
    { problem := P, folder := folder.write (base ++ "info.csv") (provenanceText x) }
  refine ⟨files, ?_, ?_, fun t k m ctg ht hm hctg =>
    hfiles (t, k, m) (mem_places.mpr ⟨ht, hm⟩) ctg hctg⟩
  · have hprepare : (onProblem prepare).on
        ({ problem := P, folder } : Desk α) = (.ok (), { problem := P, folder }) := by
      rw [onProblem, Run.zoom_on, prepare_on_prepared hprepared]
    have hinfo := writeFile_on hstart (show '/' ∉ "info.csv".toList by decide) (provenanceText x)
      ({ problem := P, folder } : Desk α)
    rw [writeCuts, Run.bind_ok _ hprepare]
    exact (Run.bind_ok _ hinfo).trans ((Run.bind_ok _ (Run.get_on _)).trans hrun)
  · rw [hothers _ fun x _ hname => tableEnd_ne x.1 x.2.1
      ((String.append_right_inj base).mp hname).symm]
    exact Folder.lookup_write_self

/-- What was written of a problem is read into one of the same shape in which no cuts have
arrived. -/
theorem readCuts_on (hprepare : prepare.on Q = (.ok (), Q₀)) (hshape : P.SameShape Q₀)
    (hunused : Q₀.PoolsHave Pool.Unused)
    (hthinned : P.PoolsHave Pool.Thinned) (hP : P.Exchangeable)
    (hstart : Text.fileName? start = some base) {x : Provenance}
    (hx : Faithful x.name ∧ Faithful x.author ∧ Faithful x.description)
    (hinfo : folder.lookup (base ++ "info.csv") = some (provenanceText x))
    (hfiles : ∀ t k m ctg, t + 1 < P.horizon → P.stageAt t k = some m → m.costToGo = some ctg →
      folder.lookup (base ++ tableEnd t k) = some (tableFile m ctg)) : ∃ Q',
      (readCuts start).on { problem := Q, folder } = (.ok x, { problem := Q', folder }) ∧
      Q'.provenance = some x ∧
      ∀ t k, t + 1 < P.horizon → Q'.cutsAt t k = restored t k (P.cutsAt t k) := by
  set Q₁ : Multistage α := { Q₀ with provenance := some x } with hQ₁
  have hawaits : ∀ y ∈ CutFiles.places Q₁, ∃ m₀, P.stageAt y.1 y.2.1 = some m₀ ∧
      Awaits folder (base ++ tableEnd y.1 y.2.1) m₀ y.2.2 := by
    intro y hy
    obtain ⟨ht, hm⟩ := mem_places.mp hy
    have ht : y.1 + 1 < P.horizon := hshape.horizon ▸ ht
    have hm : Q₀.stageAt y.1 y.2.1 = some y.2.2 := hm
    have hmodel := hshape.models y.1 y.2.1
    rcases hm₀ : P.stageAt y.1 y.2.1 with _ | m₀ <;> rw [hm₀, hm] at hmodel <;> cases hmodel
    exact ⟨m₀, rfl, ‹_›, hunused _ _ _ hm, hthinned _ _ _ hm₀,
      fun ctg hctg => hP _ _ _ ctg ht hm₀ hctg,
      fun ctg hctg => hfiles _ _ _ ctg ht hm₀ hctg⟩
  obtain ⟨Q', hrun, hrestored, hothers, hprovenance⟩ :=
    readTables_on hstart hawaits (fun y hy => (mem_places.mp hy).2)
    (places_apart Q₁)
  refine ⟨Q', ?_, hprovenance, fun t k ht => ?_⟩
  · have hready : (onProblem prepare).on ({ problem := Q, folder } : Desk α) =
        (.ok (), { problem := Q₀, folder }) := by
      rw [onProblem, Run.zoom_on, hprepare]
    rw [readCuts, Run.bind_ok _ hready, Run.bind_ok _ (Run.get_on _),
      Run.ofExcept_bind (readProvenance_eq hstart hx.1 hx.2.1 hx.2.2 hinfo)]
    exact Run.bind_ok _ hrun
  · rcases hm : Q₀.stageAt t k with _ | m
    · have hnone : P.stageAt t k = none := by
        have hmodel := hshape.models t k
        rcases hm₀ : P.stageAt t k with _ | m₀
        · rfl
        · rw [hm₀, hm] at hmodel
          cases hmodel
      have hsame : Q'.stageAt t k = none := by
        rw [hothers t k fun y hy heq => ?_]
        · exact hm
        · obtain ⟨rfl, rfl⟩ := Prod.mk.inj heq
          cases (mem_places.mp hy).2.symm.trans (show Q₁.stageAt _ _ = none from hm)
      rw [cutsAt, cutsAt, hsame, hnone]
      rfl
    · exact hrestored (t, k, m) (mem_places.mpr ⟨hshape.horizon.symm ▸ ht, hm⟩)

/-- Cuts survive an exchange by files. Whatever was done with a problem since it was prepared, its
cuts and what is told of them are written; and read into a new problem of the same shape, they stand
there in the same order with the same intercepts and slopes, numbered from the start. -/
theorem readCuts_writeCuts (hp : p.Plain) (hprepare : prepare.on p = (.ok (), P₀))
    (huse : Relation.ReflTransGen Use P₀ P) (hP : P.Exchangeable)
    (hq : q.Plain) (hprepare' : prepare.on q = (.ok (), Q₀)) (hshape : P₀.SameShape Q₀)
    (hstart : (Text.fileName? start).isSome = true) {name author description : String}
    (hname : Faithful name) (hauthor : Faithful author) (hdescription : Faithful description)
    (folder : Folder) :
    ∃ files Q,
      (writeCuts start (.text name) (.text author) (.text description)).on
      { problem := P, folder } =
        (.ok (), { problem := P, folder := files }) ∧
      (readCuts start).on { problem := q, folder := files } =
        (.ok { name, author, description }, { problem := Q, folder := files }) ∧
      Q.provenance = some { name, author, description } ∧
      ∀ t k, t + 1 < P.horizon → Q.cutsAt t k = (P.cutsAt t k).mapIdx fun i c =>
        { c with
          stage := t, markovState := k, index := some i
          entries := some (c.gradient.map .real) } := by
  obtain ⟨base, hstart⟩ := Option.isSome_iff_exists.mp hstart
  have hP₀ : P₀.prepared = true := (prepare_prepared p trivial).1 () P₀ hprepare
  obtain ⟨hprepared, hframe⟩ := frame_of_use hP₀ huse
  have hthinned := (thinned_of_use hP₀ (unused_of_prepare hp.unused hprepare) huse).2
  obtain ⟨files, hwrite, hinfo, hfiles⟩ :=
    writeCuts_on hprepared hP hstart { name, author, description } folder
  obtain ⟨Q, hread, hprovenance, hcuts⟩ := readCuts_on hprepare' (hshape.of_frame hframe)
    (unused_of_prepare hq.unused hprepare') hthinned hP hstart
    ⟨hname, hauthor, hdescription⟩ hinfo hfiles
  exact ⟨files, Q, hwrite, hread, hprovenance, hcuts⟩

end Multistage

namespace Problems

open Exchange Multistage

/-- The fraction that a text spells: a numerator, a stroke and a denominator. -/
def scanFraction (s : String) : Option ℚ :=
  let (sign, digits) := if s.toList.head? = some '-' then (-1, s.toList.tail)
    else ((1 : ℤ), s.toList)
  let value (cs : List Char) : ℕ := cs.foldl (fun n c => n * 10 + (c.toNat - 48)) 0
  some (sign * value (digits.takeWhile Char.isDigit) / value (digits.dropWhile Char.isDigit).tail)

@[reducible] def spelledOut : Numeral ℚ :=
  { (inferInstance : Numeral ℚ) with scan? := scanFraction }

def stockCut (intercept slope : ℚ) : Cut ℚ :=
  { stage := 0, markovState := 0, intercept, slopes := [slope], noiseSlopes := [], index := none }

def withCut (c : Cut ℚ) (P : Multistage ℚ) : Multistage ℚ :=
  ((onModelAt 0 0 (Stage.onPool (Pool.add c))).on P).2

def unstocked : Multistage ℚ := (@prepare ℚ _ spelledOut |>.on shortage).2

def stocked : Multistage ℚ :=
  withCut (stockCut (9 / 2) (-3 / 2))
    (withCut (stockCut (7 / 2) (-1 / 2)) (withCut (stockCut (1 / 2) 0) unstocked))

theorem shortage_plain : shortage.Plain := by
  intro t k m hm
  obtain ⟨-, rfl⟩ | ⟨-, rfl⟩ := stageAt_shortage hm
  · exact purchase_wellFormed.noCostToGo.2
  · exact demand_wellFormed.noCostToGo.2

theorem unstocked_prepared : (@prepare ℚ _ spelledOut).on shortage = (.ok (), unstocked) :=
  Run.on_of_isOk (by decide +kernel)

theorem stocked_used : letI := spelledOut; Relation.ReflTransGen Use unstocked stocked :=
  letI := spelledOut
  .tail (.tail (.single (.work (.add 0 0 _ _))) (.work (.add 0 0 _ _))) (.work (.add 0 0 _ _))

theorem stocked_legible : letI := spelledOut
    Legible (-1 / 2 : ℚ) ∧ Legible (7 / 2 : ℚ) ∧ Legible (-3 / 2 : ℚ) ∧ Legible (9 / 2 : ℚ) := by
  decide +kernel

theorem stocked_exchangeable : letI := spelledOut; stocked.Exchangeable := by
  let _ := spelledOut
  intro t k m ctg ht hm hctg
  have hlegible : ∀ x ∈ [(-1 / 2 : ℚ), 7 / 2, -3 / 2, 9 / 2], Legible x := by
    simpa using stocked_legible
  have htables : ∀ ms ∈ stocked.models.take 1, ∀ m ∈ ms, ∀ ctg ∈ m.costToGo,
      (m.cutNames ctg ++ [CutTable.interceptName]).Nodup ∧
      (∀ name ∈ m.cutNames ctg, Csv.Faithful name) ∧
      ∀ c ∈ ctg.pool.cuts, c.entries = none ∧ c.slopes.length = m.states.length ∧
        c.gradient.length = (m.cutNames ctg).length ∧ ∀ x ∈ c.gradient ++ [c.intercept],
        x ∈ [-1 / 2, 7 / 2, -3 / 2, 9 / 2] := by
    decide +kernel
  have hhorizon : stocked.horizon = 2 := by decide +kernel
  obtain rfl : t = 0 := by omega
  obtain ⟨ms, hms, hm⟩ := stageAt_eq_some.mp hm
  have hms : ms ∈ stocked.models.take 1 :=
    List.mem_of_getElem? (i := 0) (by rw [List.getElem?_take_of_lt one_pos, hms])
  obtain ⟨hnames, hfaithful, hcuts⟩ := htables ms hms m (List.mem_of_getElem? hm) ctg hctg
  refine ⟨hnames, hfaithful, fun c hc => ?_⟩
  obtain ⟨hentries, hstates, hcolumns, hmem⟩ := hcuts c hc
  exact .of_entries hentries hstates hcolumns fun x hx => hlegible x (hmem x hx)

end Problems

open Problems in
theorem Multistage.readCuts_writeCuts_stocked : letI := spelledOut
    (stocked.cutsAt 0 0).map (fun c => (c.intercept, c.slopes, c.index)) =
    [(7 / 2, [-1 / 2], some 1), (9 / 2, [-3 / 2], some 2)] ∧
    ∃ files Q,
      (CutFiles.writeCuts "cuts_" (.text "a") (.text "a, b") (.text "say \"c\"")).on
      { problem := stocked, folder := [] } =
        (.ok (), { problem := stocked, folder := files }) ∧
      (CutFiles.readCuts "cuts_").on { problem := shortage, folder := files } =
        (.ok { name := "a", author := "a, b", description := "say \"c\"" },
        { problem := Q, folder := files }) ∧
      Q.provenance = some { name := "a", author := "a, b", description := "say \"c\"" } ∧
      ∀ t k, t + 1 < stocked.horizon → Q.cutsAt t k = (stocked.cutsAt t k).mapIdx fun i c =>
        { c with
          stage := t, markovState := k, index := some i
          entries := some (c.gradient.map .real) } := by
  let _ := spelledOut
  exact ⟨by decide +kernel,
    readCuts_writeCuts shortage_plain unstocked_prepared stocked_used stocked_exchangeable
    shortage_plain unstocked_prepared (.refl _) (by decide) (by decide) (by decide) (by decide) []⟩

end Recourse
