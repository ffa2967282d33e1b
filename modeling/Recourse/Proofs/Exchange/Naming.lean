import Recourse.Proofs.Fraction
import Recourse.Proofs.Exchange.CutTable

/-! What the names of variables do to the table of the cuts. The columns of the table are kept by
name, so columns of one name share one, whatever the names are; the table tells the cuts just if no
name occurs twice and none is the name of the column of intercepts. -/

namespace Recourse

variable {α : Type} {names : List String} {cuts : List (Cut α)} {c : Cut α} {n : String}

namespace CutTable

/-- Whether a table with a column for each of some names tells a list of cuts: each column has an
entry for each cut, and the entries in one place, in the order of the names, are the row of the cut
there. -/
structure Tells (t : CutTable α) (names : List String) (cuts : List (Cut α)) : Prop where
  columns : t.map Prod.fst = names
  entries : ∀ column ∈ t, column.2.length = cuts.length
  rows : ∀ (i : ℕ) (c : Cut α), cuts[i]? = some c →
    names.map (fun n => (t.column n)[i]?) = c.line.map some

/-! ### Columns of any names -/

/-- Names that a table has already are not entered again. -/
private theorem exists_all (keys names : List String) (hkeys : keys.Nodup) :
    ∃ all : List String, all.Nodup ∧
    (∀ n, n ∈ all ↔ n ∈ keys ++ names) ∧
    names.foldl (fun (t : CutTable α) name => if t.any (·.1 == name) then t else t ++ [(name, [])])
      (keys.map fun n => (n, [])) = all.map fun n => (n, []) := by
  induction names generalizing keys with
  | nil => exact ⟨keys, hkeys, by simp, rfl⟩
  | cons name names ih =>
    have hany : ((keys.map fun n => (n, ([] : List (Datum α)))).any fun e => e.1 == name) = decide
        (name ∈ keys) := by
      rw [Bool.eq_iff_iff]
      simp
    rw [List.foldl_cons, hany]
    by_cases hmem : name ∈ keys
    · rw [if_pos (decide_eq_true hmem)]
      obtain ⟨all, hall, hnames, htable⟩ := ih keys hkeys
      refine ⟨all, hall, fun n => ?_, htable⟩
      rw [hnames, List.mem_append, List.mem_append, List.mem_cons]
      constructor
      · exact Or.imp_right .inr
      · rintro (h | rfl | h)
        · exact .inl h
        · exact .inl hmem
        · exact .inr h
    · rw [if_neg (by simpa using hmem)]
      obtain ⟨all, hall, hnames, htable⟩ := ih (keys ++ [name]) (List.nodup_append.mpr
        ⟨hkeys, List.nodup_singleton _,
        fun a ha b hb => ne_of_mem_of_not_mem ha (List.mem_singleton.mp hb ▸ hmem)⟩)
      exact ⟨all, hall, by simpa using hnames, by simpa using htable⟩

theorem exists_ofCuts (names : List String) (cuts : List (Cut α)) :
    ∃ keys : List String, keys.Nodup ∧ (∀ n, n ∈ keys ↔ n ∈ names ++ [interceptName]) ∧
      ofCuts names cuts =
      keys.map
        fun n => (n, cuts.flatMap fun c => ((entriesOf names c).filter (·.1 == n)).map (·.2)) := by
  obtain ⟨keys, hkeys, hmem, htable⟩ :=
    exists_all (α := α) [] (names ++ [interceptName]) List.nodup_nil
  have hnames : (ofNames (names ++ [interceptName]) : CutTable α) = keys.map
      fun n => (n, []) := htable
  refine ⟨keys, hkeys, hmem, ?_⟩
  rw [ofCuts, hnames, foldl_pushCut fun _ => []]
  simp only [List.nil_append]

/-- The columns of a table have different names, which are those of the variables and the one of the
intercepts. -/
theorem keys_ofCuts (names : List String) (cuts : List (Cut α)) :
    ((ofCuts names cuts).map Prod.fst).Nodup ∧
    ∀ n, n ∈ (ofCuts names cuts).map Prod.fst ↔ n ∈ names ++ [interceptName] := by
  obtain ⟨keys, hkeys, hmem, htable⟩ := exists_ofCuts names cuts
  have hfst : (ofCuts names cuts).map Prod.fst = keys := by
    rw [htable, List.map_map]
    exact List.map_id _
  rw [hfst]
  exact ⟨hkeys, hmem⟩

theorem column_eq (hn : n ∈ names ++ [interceptName]) : column (ofCuts names cuts) n =
    cuts.flatMap fun c => ((entriesOf names c).filter (·.1 == n)).map (·.2) := by
  obtain ⟨keys, -, hmem, htable⟩ := exists_ofCuts names cuts
  rw [htable, lookup_map ((hmem n).mpr hn)]

/-- How much a cut that fits puts into a column. -/
theorem length_filter_entriesOf (h : c.row.length = names.length) :
    (((entriesOf names c).filter (·.1 == n)).map (·.2)).length =
    (names ++ [interceptName]).count n := by
  have hfst : (entriesOf names c).map Prod.fst = names ++ [interceptName] := by
    rw [entriesOf_eq h, List.map_fst_zip]
    simp [Cut.line, h]
  rw [List.length_map, ← List.countP_eq_length_filter, ← hfst, List.count, List.countP_map]
  rfl

theorem length_column_eq (hcuts : ∀ c ∈ cuts, c.row.length = names.length)
    (hn : n ∈ names ++ [interceptName]) :
    (column (ofCuts names cuts) n).length = (names ++ [interceptName]).count n * cuts.length := by
  rw [column_eq hn, List.length_flatMap]
  have hlengths : cuts.map (fun c => (((entriesOf names c).filter (·.1 == n)).map (·.2)).length) =
      cuts.map fun _ => (names ++ [interceptName]).count n :=
    List.map_congr_left fun c hc => length_filter_entriesOf (hcuts c hc)
  rw [hlengths, List.map_const', List.sum_replicate, smul_eq_mul, mul_comm]

/-- The columns of a table have entries for the same number of rows where there are no cuts, and
where all names occur equally often. -/
theorem even_ofCuts_iff (hcuts : ∀ c ∈ cuts, c.row.length = names.length) :
    (∀ entry ∈ ofCuts names cuts,
      entry.2.length = (column (ofCuts names cuts) interceptName).length) ↔
      cuts = [] ∨ ∀ n ∈ names,
      (names ++ [interceptName]).count n = (names ++ [interceptName]).count interceptName := by
  have hintercept : interceptName ∈ names ++ [interceptName] :=
    List.mem_append_right _ (List.mem_singleton_self _)
  have hcolumns : (∀ entry ∈ ofCuts names cuts,
      entry.2.length = (column (ofCuts names cuts) interceptName).length) ↔
      ∀ n ∈ names ++ [interceptName],
        (column (ofCuts names cuts) n).length =
        (column (ofCuts names cuts) interceptName).length := by
    obtain ⟨keys, -, hmem, htable⟩ := exists_ofCuts names cuts
    constructor
    · intro h n hn
      rw [column_eq hn]
      exact h (n, _) (htable ▸ List.mem_map_of_mem ((hmem n).mpr hn))
    · intro h entry hentry
      obtain ⟨n, hn, rfl⟩ := List.mem_map.mp (htable ▸ hentry)
      rw [← h n ((hmem n).mp hn), column_eq ((hmem n).mp hn)]
  rw [hcolumns]
  constructor
  · intro h
    by_cases hnil : cuts = []
    · exact .inl hnil
    · refine .inr fun n hn => ?_
      have hlength := h n (List.mem_append_left _ hn)
      rw [length_column_eq hcuts (List.mem_append_left _ hn),
        length_column_eq hcuts hintercept] at hlength
      exact Nat.eq_of_mul_eq_mul_right (List.length_pos_iff.mpr hnil) hlength
  · rintro (rfl | h) n hn
    · rw [length_column_eq hcuts hn, length_column_eq hcuts hintercept, List.length_nil,
        mul_zero, mul_zero]
    · rw [length_column_eq hcuts hn, length_column_eq hcuts hintercept]
      rcases List.mem_append.mp hn with hn | hn
      · rw [h n hn]
      · rw [List.mem_singleton.mp hn]

/-! ### Which tables tell the cuts -/

theorem tells_ofCuts_iff : (ofCuts names cuts).Tells (names ++ [interceptName]) cuts ↔
    (names ++ [interceptName]).Nodup ∧ ∀ c ∈ cuts, c.row.length = names.length := by
  constructor
  · intro h
    refine ⟨h.columns ▸ (keys_ofCuts names cuts).1, ?_⟩
    intro c hc
    obtain ⟨i, hi⟩ := List.mem_iff_getElem?.mp hc
    have hlength := congrArg List.length (h.rows i c hi)
    simp only [List.length_map, List.length_append, Cut.line, List.length_singleton] at hlength
    omega
  · rintro ⟨hnames, hcuts⟩
    refine ⟨?_, fun column => length_column hnames hcuts, ?_⟩
    · rw [ofCuts_eq hnames hcuts, List.map_map]
      exact List.map_id _
    · intro i c hi
      have hline : c.line.length = (names ++ [interceptName]).length := by
        simp [Cut.line, hcuts c (List.mem_of_getElem? hi)]
      apply List.ext_getElem (by simp [hline])
      intro j hj hj'
      rw [List.length_map] at hj hj'
      rw [List.getElem_map, List.getElem_map,
        column_ofCuts hnames hcuts (List.getElem?_eq_getElem hj),
        Exchange.Column.ofGrid, List.getElem?_map, List.getElem?_map, hi]
      simp [hj']

end CutTable

/-! ### The table of a model -/

namespace Stage

variable [Scalar α] [Numeral α]

/-- Whatever the names of its variables are, the table of a model has one column for each name. It
tells the cuts just if the names are all different, also from the one of the intercepts, and every
cut has a slope for each variable. Where the cuts have their slopes, a column has an entry for each
cut and each variable of its name, and there is something to write just if every name belongs to as
many columns as the one of the intercepts does. -/
theorem cutTable_tells_iff (m : Stage α) (ctg : CostToGo α) (hctg : m.costToGo = some ctg) :
    (m.cutTable.Tells (m.cutNames ctg ++ [CutTable.interceptName]) ctg.pool.cuts ↔
      (m.cutNames ctg ++ [CutTable.interceptName]).Nodup ∧
      ∀ c ∈ ctg.pool.cuts, c.row.length = (m.cutNames ctg).length) ∧
    ((m.cutTable.map Prod.fst).Nodup ∧
      ∀ n, n ∈ m.cutTable.map Prod.fst ↔ n ∈ m.cutNames ctg ++ [CutTable.interceptName]) ∧
    ((∀ c ∈ ctg.pool.cuts, c.row.length = (m.cutNames ctg).length) →
      (∀ n ∈ m.cutNames ctg ++ [CutTable.interceptName], (m.cutTable.column n).length =
        (m.cutNames ctg ++ [CutTable.interceptName]).count n * ctg.pool.cuts.length) ∧
      ((∃ text, CutFiles.tableText m ctg = .ok text) ↔ ctg.pool.cuts = [] ∨ ∀ n ∈ m.cutNames ctg,
        (m.cutNames ctg ++ [CutTable.interceptName]).count n =
          (m.cutNames ctg ++ [CutTable.interceptName]).count CutTable.interceptName)) := by
  have htable : m.cutTable = CutTable.ofCuts (m.cutNames ctg) ctg.pool.cuts := by
    rw [cutTable, hctg]
  rw [htable]
  refine ⟨CutTable.tells_ofCuts_iff, CutTable.keys_ofCuts _ _,
    fun hcuts => ⟨fun n => CutTable.length_column_eq hcuts, ?_⟩⟩
  rw [← CutTable.even_ofCuts_iff hcuts, CutFiles.tableText, htable]
  split_ifs with heven
  · simpa using heven
  · simpa using heven

/-- The value function of a model whose one cut rises by two from one on. -/
def rise : CostToGo ℚ where
  lagged := false
  pool := { Pool.empty .minimize ⟨[.fin 0], [.fin 9]⟩ false
  with cuts := [⟨0, 0, 1, [2], [], some 0, none⟩] }
  attached := []
  version := 0

def named (name : String) : Stage ℚ :=
  { Stage.empty "0_0" (.int 0) (.int 0) .minimize with
    columns := [⟨name, .fin 0, .fin 9, 1⟩]
    states := [0]
    costToGo := some rise }

/-- The table of a state `x` tells the cut. -/
theorem cutTable_tells_iff_named : (named "x").cutTable.Tells ["x", "rhs"] rise.pool.cuts ∧
    ∃ text, CutFiles.tableText (named "x") rise = .ok text :=
  have hfits : ∀ c ∈ rise.pool.cuts, c.row.length = ((named "x").cutNames rise).length := by
      decide +kernel
  have h := cutTable_tells_iff (named "x") rise rfl
  ⟨h.1.mpr ⟨by decide, hfits⟩, (h.2.2 hfits).2.mpr (.inr (by decide +kernel))⟩

/-- The column of a state `rhs` is the one of the intercepts, so the table of one cut has two
rows. -/
theorem named_rhs : (named "rhs").cutTable.map
    (fun entry => (entry.1, entry.2.length)) = [("rhs", 2)] ∧
    ¬ (named "rhs").cutTable.Tells ["rhs", "rhs"] rise.pool.cuts := by
  have htable : (named "rhs").cutTable.map
      (fun entry => (entry.1, entry.2.length)) = [("rhs", 2)] := by decide +kernel
  refine ⟨htable, fun h => ?_⟩
  have hlength : ((named "rhs").cutTable.map (fun entry => (entry.1, entry.2.length))).length =
      2 := by
    rw [List.length_map, ← List.length_map Prod.fst, h.columns]
    rfl
  rw [htable] at hlength
  cases hlength

end Stage

end Recourse
