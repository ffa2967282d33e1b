import Recourse.Proofs.Exchange.Column

/-! The table of the cuts of a model, as text and read back. Columns go by name where the table is
made and by place where it is read, so the names have to be distinct; then each row comes back as
the cut that it was made of. -/

namespace Recourse

open Csv (Faithful)
open Exchange (Readable Legible)
open Exchange.Column (ofGrid again allAgain written)

variable {α : Type} {names : List String} {cuts : List (Cut α)} {c : Cut α}

def Cut.line (c : Cut α) : List (Datum α) := c.row ++ [.real c.intercept]

namespace CutTable

/-! ### Columns by name -/

theorem ofNames_eq (h : names.Nodup) :
    (ofNames names : CutTable α) = names.map fun n => (n, []) := by
  have hfold (done : List String) (h : (done ++ names).Nodup) :
      names.foldl (fun (t : CutTable α) name => if t.any (·.1 == name) then t
      else t ++ [(name, [])])
        (done.map fun n => (n, [])) = (done ++ names).map fun n => (n, []) := by
    induction names generalizing done with
    | nil => simp
    | cons name names ih =>
      have hnew : name ∉ done := fun hmem =>
        (List.nodup_append.mp h).2.2 name hmem name List.mem_cons_self rfl
      have habsent : ((done.map fun n => (n, ([] : List (Datum α)))).any fun e => e.1 == name) =
          false := by
        simpa using fun n hn => ne_of_mem_of_not_mem hn hnew
      have hsplit : done ++ name :: names = done ++ [name] ++ names := by simp
      rw [hsplit] at h ⊢
      rw [List.foldl_cons, habsent, if_neg (by simp),
        ← ih (List.Nodup.of_append_right h) (done ++ [name]) h]
      simp
  exact hfold [] h

theorem foldl_push (f : String → List (Datum α)) (entries : List (String × Datum α)) :
    entries.foldl (fun t (e : String × Datum α) => push t e.1 e.2) (names.map fun n => (n, f n)) =
      names.map fun n => (n, f n ++ (entries.filter (·.1 == n)).map (·.2)) := by
  induction entries generalizing f with
  | nil => simp
  | cons e entries ih =>
    have hpush : push (names.map fun n => (n, f n)) e.1 e.2 = names.map
        fun n => (n, f n ++ if e.1 == n then [e.2] else []) := by
      rw [push, List.map_map]
      refine List.map_congr_left fun n _ => ?_
      by_cases hn : n = e.1
      · simp [hn]
      · simp [hn, Ne.symm hn]
    rw [List.foldl_cons, hpush, ih]
    refine List.map_congr_left fun n _ => ?_
    by_cases hn : e.1 = n <;> simp [hn]

/-- What a cut puts into a table: its slopes under the names of the columns, as far as both go, and
its intercept. -/
def entriesOf (names : List String) (c : Cut α) : List (String × Datum α) :=
  names.zip c.row ++ [(interceptName, .real c.intercept)]

theorem pushCut_eq (t : CutTable α) :
    pushCut names t c = (entriesOf names c).foldl
      (fun t (e : String × Datum α) => push t e.1 e.2) t := by
  rw [entriesOf, List.foldl_append]
  rfl

theorem entriesOf_eq (h : c.row.length = names.length) :
    entriesOf names c = (names ++ [interceptName]).zip c.line := by
  rw [Cut.line, List.zip_append h.symm]
  rfl

/-- The columns gather what the cuts put under their names. -/
theorem foldl_pushCut {keys : List String} (f : String → List (Datum α)) :
    cuts.foldl (pushCut names) (keys.map fun n => (n, f n)) =
      keys.map fun n => (n, f n ++ cuts.flatMap
        fun c => ((entriesOf names c).filter (·.1 == n)).map (·.2)) := by
  induction cuts generalizing f with
  | nil => simp
  | cons c cuts ih =>
    rw [List.foldl_cons, pushCut_eq, foldl_push, ih]
    simp only [List.flatMap_cons, List.append_assoc]

/-- The entry of one column in a row. -/
theorem filter_zip {row : List (Datum α)} (hnames : names.Nodup)
    (hlength : row.length = names.length) {j : ℕ} {name : String}
    (hj : names[j]? = some name) : ((names.zip row).filter (·.1 == name)).map
    (·.2) = [row.getD j .null] := by
  induction names generalizing row j with
  | nil => cases hj
  | cons n names ih =>
    obtain ⟨d, row, rfl⟩ := List.exists_cons_of_length_eq_add_one hlength
    have hn := List.nodup_cons.mp hnames
    have hrow : row.length = names.length := by simpa using hlength
    cases j with
    | zero =>
      obtain rfl : n = name := by simpa using hj
      have hrest : (names.zip row).filter (·.1 == n) = [] := by
        refine List.filter_eq_nil_iff.mpr fun e he => ?_
        have hmem := (List.of_mem_zip he).1
        simpa using ne_of_mem_of_not_mem hmem hn.1
      simp [hrest]
    | succ j =>
      have hj : names[j]? = some name := by simpa using hj
      have hne : n ≠ name := (ne_of_mem_of_not_mem (List.mem_of_getElem? hj) hn.1).symm
      simpa [hne] using ih hn.2 hrow hj

theorem ofCuts_eq (hnames : (names ++ [interceptName]).Nodup)
    (hcuts : ∀ c ∈ cuts, c.row.length = names.length) :
    ofCuts names cuts = (names ++ [interceptName]).map fun n =>
      (n, cuts.flatMap fun c => (((names ++ [interceptName]).zip c.line).filter (·.1 == n)).map
        (·.2)) := by
  rw [ofCuts, ofNames_eq hnames, foldl_pushCut fun _ => []]
  refine List.map_congr_left fun n _ => congrArg (Prod.mk n) ?_
  rw [List.nil_append]
  refine List.flatMap_congr fun c hc => ?_
  rw [entriesOf_eq (hcuts c hc)]

theorem lookup_map {f : String → List (Datum α)} {name : String} (h : name ∈ names) :
    column (names.map fun n => (n, f n)) name = f name := by
  have hlookup : (names.map fun n => (n, f n)).lookup name = some (f name) := by
    induction names with
    | nil => cases h
    | cons n names ih =>
      rw [List.map_cons, List.lookup_cons]
      by_cases hn : name = n
      · simp [hn]
      · rw [beq_false_of_ne hn]
        exact ih ((List.mem_cons.mp h).resolve_left hn)
  rw [column, hlookup]
  rfl

theorem flatMap_filter_zip (hnames : (names ++ [interceptName]).Nodup)
    (hcuts : ∀ c ∈ cuts, c.row.length = names.length) {j : ℕ} {name : String}
    (hj : (names ++ [interceptName])[j]? = some name) :
    (cuts.flatMap fun c => (((names ++ [interceptName]).zip c.line).filter (·.1 == name)).map
      (·.2)) =
      ofGrid (cuts.map Cut.line) j := by
  rw [ofGrid, List.map_map, List.map_eq_flatMap]
  refine List.flatMap_congr fun c hc => ?_
  have hlength : c.line.length = (names ++ [interceptName]).length := by simp [Cut.line, hcuts c hc]
  exact filter_zip hnames hlength hj

theorem column_ofCuts (hnames : (names ++ [interceptName]).Nodup)
    (hcuts : ∀ c ∈ cuts, c.row.length = names.length) {j : ℕ} {name : String}
    (hj : (names ++ [interceptName])[j]? = some name) :
    column (ofCuts names cuts) name = ofGrid (cuts.map Cut.line) j := by
  rw [ofCuts_eq hnames hcuts, lookup_map (List.mem_of_getElem? hj),
    flatMap_filter_zip hnames hcuts hj]

theorem length_column (hnames : (names ++ [interceptName]).Nodup)
    (hcuts : ∀ c ∈ cuts, c.row.length = names.length)
    {column : String × List (Datum α)} (h : column ∈ ofCuts names cuts) :
    column.2.length = cuts.length := by
  rw [ofCuts_eq hnames hcuts] at h
  obtain ⟨name, hname, rfl⟩ := List.mem_map.mp h
  obtain ⟨j, hj⟩ := List.mem_iff_getElem?.mp hname
  dsimp only
  rw [flatMap_filter_zip hnames hcuts hj, ofGrid, List.length_map, List.length_map]

end CutTable

variable [Scalar α] [Numeral α]

/-- A cut that fits a number of states and of columns, and whose numbers are read back from a
table. -/
structure Cut.Tabular (states columns : ℕ) (c : Cut α) : Prop where
  states : c.slopes.length = states
  columns : c.gradient.length = columns
  entries : c.row.map CutFiles.slope = c.gradient
  readable : ∀ d ∈ c.row, Readable d
  legible : Legible c.intercept

def Cut.reread (t k : ℕ) (c : Cut α) : Cut α :=
  { c with stage := t, markovState := k, index := none, entries := some (c.gradient.map .real) }

namespace Cut.Tabular

variable {states columns : ℕ}

theorem of_entries (hentries : c.entries = none) (hstates : c.slopes.length = states)
    (hcolumns : c.gradient.length = columns)
    (hlegible : ∀ x ∈ c.gradient ++ [c.intercept], Legible x) : c.Tabular states columns := by
  have hrow : c.row = c.gradient.map .real := by
    rw [row, hentries, Option.getD_none]
  refine ⟨hstates, hcolumns, ?_, fun d hd => ?_, hlegible _ (by simp)⟩
  · rw [hrow, List.map_map]
    exact List.map_id _
  · obtain ⟨x, hx, rfl⟩ := List.mem_map.mp (hrow ▸ hd)
    exact .real (hlegible x (List.mem_append_left _ hx))

theorem length_row (h : c.Tabular states columns) : c.row.length = columns := by
  rw [← List.length_map CutFiles.slope, h.entries, h.columns]

theorem length_line (h : c.Tabular states columns) : c.line.length = columns + 1 := by
  rw [line, List.length_append, h.length_row, List.length_singleton]

theorem readable_line (h : c.Tabular states columns) : ∀ d ∈ c.line, Readable d := by
  intro d hd
  rcases List.mem_append.mp hd with hd | hd
  · exact h.readable d hd
  · exact List.mem_singleton.mp hd ▸ .real h.legible

theorem map_slope_line (h : c.Tabular states columns) :
    c.line.map (fun d => (.real (CutFiles.slope d) : Datum α)) =
    (c.gradient ++ [c.intercept]).map .real := by
  rw [line, List.map_append, List.map_append, ← h.entries, List.map_map]
  rfl

/-- The row of a cut spells the cut. -/
theorem cutOfRow_eq (h : c.Tabular states columns) (t k : ℕ) :
    CutFiles.cutOfRow states t k ((c.gradient ++ [c.intercept]).map .real) = .ok
      (c.reread t k) := by
  have hlength : (c.slopes.map Datum.real).length = states := (List.length_map _).trans h.states
  have hgradient : c.gradient.map Datum.real = c.slopes.map .real ++ c.noiseSlopes.map .real :=
    List.map_append
  have hslopes (xs : List α) : (xs.map Datum.real).map CutFiles.slope = xs := by
    rw [List.map_map]
    exact List.map_id xs
  rw [CutFiles.cutOfRow, List.map_append, List.map_singleton, List.getLast?_concat]
  dsimp only
  rw [List.dropLast_concat, hgradient, List.append_assoc, List.take_left' hlength,
    List.drop_left' hlength, hslopes, hslopes,
    ← hgradient]
  rfl

end Cut.Tabular

/-- A model with a table of cuts in which the columns can be told apart, and that can be read. -/
structure Stage.Tabular (m : Stage α) (ctg : CostToGo α) : Prop where
  names : (m.cutNames ctg ++ [CutTable.interceptName]).Nodup
  faithful : ∀ name ∈ m.cutNames ctg, Faithful name
  cuts : ∀ c ∈ ctg.pool.cuts, c.Tabular m.states.length (m.cutNames ctg).length

namespace Stage

def columnTexts (m : Stage α) (ctg : CostToGo α) : List (List String) :=
  (List.range ((m.cutNames ctg).length + 1)).map fun j =>
    written (ofGrid (ctg.pool.cuts.map Cut.line) j)

/-- The records of the table of a model: the names of its columns, then a row for each cut. -/
def tableHeader (m : Stage α) (ctg : CostToGo α) : List String :=
  "" :: (m.cutNames ctg ++ [CutTable.interceptName])

def tableBody (m : Stage α) (ctg : CostToGo α) : List (List String) :=
  (List.range ctg.pool.cuts.length).map (CutFiles.tableRow (m.columnTexts ctg))

namespace Tabular

variable {m : Stage α} {ctg : CostToGo α} (h : m.Tabular ctg)
include h

theorem column_eq (hctg : m.costToGo = some ctg) {j : ℕ} {name : String}
    (hj : (m.cutNames ctg ++ [CutTable.interceptName])[j]? = some name) :
    m.cutTable.column name = ofGrid (ctg.pool.cuts.map Cut.line) j := by
  rw [cutTable, hctg]
  exact CutTable.column_ofCuts h.names (fun c hc => (h.cuts c hc).length_row) hj

theorem tableText_eq (hctg : m.costToGo = some ctg) :
    CutFiles.tableText m ctg = .ok (Csv.render (m.tableHeader ctg :: m.tableBody ctg)) := by
  have hcolumns : ((m.cutNames ctg ++ [CutTable.interceptName]).map
      fun name => written (m.cutTable.column name)) =
      m.columnTexts ctg := by
    refine List.ext_getElem (by simp [columnTexts]) fun j hj _ => ?_
    rw [List.length_map] at hj
    simp only [columnTexts, List.getElem_map, List.getElem_range]
    rw [h.column_eq hctg (List.getElem?_eq_getElem hj)]
  have hcount : (m.cutTable.column CutTable.interceptName).length = ctg.pool.cuts.length := by
    rw [h.column_eq hctg (List.getElem?_concat_length), ofGrid, List.length_map, List.length_map]
  have hlengths : (m.cutTable.all fun column => column.2.length = ctg.pool.cuts.length) = true := by
    rw [cutTable, hctg, List.all_eq_true]
    exact fun column hcolumn => decide_eq_true
      (CutTable.length_column h.names (fun c hc => (h.cuts c hc).length_row) hcolumn)
  rw [CutFiles.tableText, hcolumns, hcount, if_pos hlengths]
  rfl

omit h in
theorem length_tableBody : ∀ row ∈ m.tableBody ctg, row.length = (m.tableHeader ctg).length := by
  intro row hrow
  obtain ⟨i, -, rfl⟩ := List.mem_map.mp hrow
  simp [CutFiles.tableRow, columnTexts, tableHeader]

theorem readable_lines : ∀ row ∈ ctg.pool.cuts.map Cut.line, ∀ d ∈ row, Readable d := by
  intro row hrow
  obtain ⟨c, hc, rfl⟩ := List.mem_map.mp hrow
  exact (h.cuts c hc).readable_line

theorem length_lines : ∀ row ∈ ctg.pool.cuts.map Cut.line,
    row.length = (m.cutNames ctg).length + 1 := by
  intro row hrow
  obtain ⟨c, hc, rfl⟩ := List.mem_map.mp hrow
  exact (h.cuts c hc).length_line

theorem faithful_table : ∀ row ∈ m.tableHeader ctg :: m.tableBody ctg, ∀ s ∈ row, Faithful s := by
  have hempty : Faithful "" := by decide
  intro row hrow s hs
  rcases List.mem_cons.mp hrow with rfl | hrow
  · rcases List.mem_cons.mp hs with rfl | hs
    · exact hempty
    · rcases List.mem_append.mp hs with hs | hs
      · exact h.faithful s hs
      · exact List.mem_singleton.mp hs ▸ (by decide : Faithful CutTable.interceptName)
  · obtain ⟨i, -, rfl⟩ := List.mem_map.mp hrow
    rcases List.mem_cons.mp hs with rfl | hs
    · exact Exchange.faithful_toString i
    · obtain ⟨texts, htexts, rfl⟩ := List.mem_map.mp hs
      obtain ⟨j, hj, rfl⟩ := List.mem_map.mp htexts
      rw [List.getD_eq_getElem?_getD]
      cases hentry : (written (ofGrid (ctg.pool.cuts.map Cut.line) j))[i]? with
      | none => exact hempty
      | some s =>
        exact Exchange.Column.faithful_written
          (Exchange.Column.readable_ofGrid h.length_lines h.readable_lines (List.mem_range.mp hj))
          (List.mem_of_getElem? hentry)

theorem parse_table : Csv.parse (α := α) (Csv.render (m.tableHeader ctg :: m.tableBody ctg)) =
    .ok { header := m.tableHeader ctg, rows := m.tableBody ctg } := by
  refine Csv.parse_render (by simp [tableHeader]) length_tableBody h.faithful_table ?_
  obtain ⟨name, names, hnames⟩ := List.exists_cons_of_ne_nil
    (List.append_ne_nil_of_right_ne_nil (m.cutNames ctg)
    (List.cons_ne_nil CutTable.interceptName []))
  have hcomma : ("," : String).toList = [','] := rfl
  have hempty : (Csv.field "").toList = [] := rfl
  rw [Csv.render, List.map_cons, String.join_cons, Csv.line, tableHeader, hnames, List.map_cons,
    List.map_cons,
    String.intercalate_cons_cons]
  simp only [String.toList_append, hcomma, hempty, List.nil_append, List.cons_append,
    List.head?_cons]
  decide

omit h in
theorem ofRows_tableBody : Exchange.Column.ofRows (α := α) ((m.cutNames ctg).length + 1)
    ((m.tableBody ctg).map (·.drop 1)) =
    allAgain ((m.cutNames ctg).length + 1) (ctg.pool.cuts.map Cut.line) := by
  refine List.map_congr_left fun j hj => ?_
  have hcolumn : ((m.tableBody ctg).map (·.drop 1)).map (fun row => row.getD j "") =
      written (ofGrid (ctg.pool.cuts.map Cut.line) j) := by
    have hlength : (written (ofGrid (ctg.pool.cuts.map Cut.line) j)).length =
        ctg.pool.cuts.length := by
      simp [written, ofGrid]
    refine List.ext_getElem (by simp [tableBody, hlength]) fun i hi hi' => ?_
    simp [tableBody, CutFiles.tableRow, columnTexts, List.mem_range.mp hj, hi']
  rw [hcolumn]
  rfl

/-- The rows of the table of a model are read as the numbers of its cuts. -/
theorem cutRows_eq : CutFiles.cutRows { header := m.tableHeader ctg, rows := m.tableBody ctg } =
    .ok (ctg.pool.cuts.map fun c => (c.gradient ++ [c.intercept]).map .real) := by
  have hwidth : Csv.Table.width { header := m.tableHeader ctg, rows := m.tableBody ctg } =
      (m.cutNames ctg).length + 2 := by
    rw [Csv.width_eq length_tableBody, tableHeader, List.length_cons, List.length_append,
      List.length_singleton]
  have hragged : ¬ (m.tableHeader ctg).length + 1 < (m.cutNames ctg).length + 2 := by
    simp [tableHeader]
  have hlast : ∀ row ∈ ctg.pool.cuts.map Cut.line,
      (row.getD (m.cutNames ctg).length .null).int? = none := by
    intro row hrow
    obtain ⟨c, hc, rfl⟩ := List.mem_map.mp hrow
    rw [Cut.line, List.getD_append_right _ _ _ _ (h.cuts c hc).length_row.le,
      (h.cuts c hc).length_row, Nat.sub_self]
    rfl
  have hrows := Exchange.Column.toRows_allAgain h.length_lines h.readable_lines
    (Nat.lt_succ_self _) hlast
  have hnumbers : (ctg.pool.cuts.map Cut.line).map
      (List.map fun d => (.real (CutFiles.slope d) : Datum α)) =
      ctg.pool.cuts.map fun c => (c.gradient ++ [c.intercept]).map .real := by
    rw [List.map_map]
    exact List.map_congr_left fun c hc => (h.cuts c hc).map_slope_line
  have hcount : (m.tableBody ctg).length = (ctg.pool.cuts.map Cut.line).length := by
    simp [tableBody]
  rw [CutFiles.cutRows, hwidth, if_neg hragged]
  change Except.ok (Exchange.Column.toRows
    (Exchange.Column.ofRows ((m.cutNames ctg).length + 1) _) _) = _
  rw [ofRows_tableBody, hcount, hrows, hnumbers]

end Tabular

end Stage

end Recourse
