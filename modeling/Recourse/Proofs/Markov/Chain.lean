import Recourse.Proofs.Scalar
import Recourse.Proofs.Run
import Recourse.Markov.Chain

/-! What the check of a chain establishes. The matrices fit one another, the entries of a row are
probabilities, and a state is reachable just if some reachable state of the stage before moves to it
with positive probability. -/

namespace Recourse

variable {α : Type}

/-! ### Rectangular arrays -/

theorem Datum.shape?_of_allOfShape {s : List ℕ} {ds : List (Datum α)}
    (h : Datum.allOfShape s ds = true) {d : Datum α} (hd : d ∈ ds) : d.shape? = some s := by
  induction ds with
  | nil => simp at hd
  | cons x xs ih =>
    rw [Datum.allOfShape, Bool.and_eq_true] at h
    rcases List.mem_cons.mp hd with rfl | hd
    · rcases hx : d.shape? with _ | t
      · simp [hx] at h
      · rw [hx] at h
        rw [eq_of_beq h.1]
    · exact ih h.2 hd

theorem Datum.length_children_of_shape? {d : Datum α} {n : ℕ} {s : List ℕ}
    (h : d.shape? = some (n :: s)) :
    d.children.length = n ∧ ∀ x ∈ d.children, x.shape? = some s := by
  cases d with
  | list items =>
    cases items with
    | nil =>
      simp only [Datum.shape?, Option.some.injEq, List.cons.injEq] at h
      simp [Datum.children, h.1]
    | cons x xs =>
      rw [Datum.shape?] at h
      obtain ⟨t, hx, h⟩ := Option.bind_eq_some_iff.mp h
      split_ifs at h with hall
      simp only [Option.some.injEq, List.cons.injEq] at h
      obtain ⟨hn, rfl⟩ := h
      refine ⟨hn, fun y hy => ?_⟩
      rcases List.mem_cons.mp hy with rfl | hy
      · exact hx
      · exact Datum.shape?_of_allOfShape hall hy
  | _ => simp [Datum.shape?] at h

theorem Datum.rows_of_grid [Scalar α] [Numeral α] {d : Datum α} {width : ℕ} {rows : List (List α)}
    (h : d.grid = .ok (.matrix width rows)) : ∃ n, d.shape? = some [n, width] ∧
      List.Forall₂ (fun row xs => row ∈ d.children ∧
        row.children.mapM Datum.cell = (.ok xs : Except (Fault α) _))
        d.children rows := by
  unfold Datum.grid at h
  split at h
  · cases h
  · cases hcell : d.cell <;> rw [hcell] at h <;> cases h
  · cases hcells : d.children.mapM Datum.cell <;> rw [hcells] at h <;> cases h
  · rename_i n width' hshape
    cases hrows : d.children.mapM fun row : Datum α => row.children.mapM Datum.cell with
    | error e =>
      rw [hrows] at h
      cases h
    | ok found =>
      rw [hrows] at h
      obtain ⟨rfl, rfl⟩ := Grid.matrix.inj (Except.ok.inj h)
      exact ⟨n, hshape, forall₂_of_mapM hrows⟩
  · split_ifs at h
    rename_i s _ _
    cases hleaves : d.leaves.forM fun x => x.cell.map fun _ => () <;> rw [hleaves] at h <;> cases h

theorem Datum.length_of_grid [Scalar α] [Numeral α] {d : Datum α} {width : ℕ} {rows : List (List α)}
    (h : d.grid = .ok (.matrix width rows)) {row : List α} (hrow : row ∈ rows) :
    row.length = width := by
  obtain ⟨n, hshape, hcells⟩ := Datum.rows_of_grid h
  obtain ⟨i, hi, rfl⟩ := List.mem_iff_getElem.mp hrow
  obtain ⟨hmem, hchild⟩ := hcells.get (hcells.length_eq ▸ hi) hi
  have hlength := (forall₂_of_mapM hchild).length_eq
  have hchildren := Datum.length_children_of_shape?
    (Datum.length_children_of_shape? hshape |>.2 _ hmem)
  exact hlength.symm.trans hchildren.1

theorem Datum.ne_nil_of_grid [Scalar α] [Numeral α] {d : Datum α} {width : ℕ} {rows : List (List α)}
    (h : d.grid = .ok (.matrix width rows)) : rows ≠ [] := by
  rintro rfl
  obtain ⟨n, hshape, hcells⟩ := Datum.rows_of_grid h
  have hnil : d.children = [] := List.forall₂_nil_right_iff.mp hcells
  cases d with
  | list items =>
    obtain rfl : items = [] := hnil
    simp [Datum.shape?] at hshape
  | _ => simp [Datum.shape?] at hshape

namespace Chain

variable [Field α] [LinearOrder α] {c : Chain α} {before after : List Bool} {width stage : ℕ}
  {rows : List (List α)}

/-! ### One stage -/

/-- A matrix between two stages, of each of which it is known which states can be reached. -/
structure Link (before : List Bool) (rows : List (List α)) (width : ℕ) (after : List Bool) :
    Prop where
  height : rows.length = before.length
  rectangular : ∀ row ∈ rows, row.length = width
  range : ∀ row ∈ rows, ∀ x ∈ row, 0 ≤ x ∧ x ≤ 1
  sum : ∀ (j : ℕ) (row : List α), before[j]? = some true → rows[j]? = some row →
    nearOne row.sum = true
  idle : ∀ (j : ℕ) (row : List α), before[j]? = some false → rows[j]? = some row →
    nearZero row.sum = true ∨ nearOne row.sum = true
  after : after = step before width rows

theorem link_of_checkStage (hrows : rows.length = before.length)
    (hwidth : ∀ row ∈ rows, row.length = width)
    (h : checkStage stage (some before) width rows = .ok after) : Link before rows width after := by
  unfold checkStage at h
  dsimp only at h
  split_ifs at h with hrange
  · cases h
  obtain ⟨_, hchecked, h⟩ := ok_of_bind h
  obtain rfl := Except.ok.inj h
  have hrow (j : ℕ) (reached : Bool) (row : List α) (hreached : before[j]? = some reached)
      (hrow : rows[j]? = some row) :
      ((reached, row), j) ∈ (before.zip rows).zipIdx := by
    rw [List.mem_zipIdx_iff_getElem?]
    exact List.getElem?_zip_eq_some.mpr ⟨hreached, hrow⟩
  refine ⟨hrows, hwidth, fun row hrow x hx => ?_, fun j row hj hrow' => ?_,
    fun j row hj hrow' => ?_, rfl⟩
  · by_contra hout
    refine hrange (List.any_eq_true.mpr ⟨row, hrow, List.any_eq_true.mpr ⟨x, hx, ?_⟩⟩)
    simp only [Bool.or_eq_true, decide_eq_true_eq]
    by_contra hnone
    push Not at hnone
    exact hout hnone
  · have hsum := ok_of_forM hchecked (hrow j true row hj hrow')
    simp only [if_true, Scalar.total_eq_sum] at hsum
    by_contra hone
    rw [if_neg hone] at hsum
    cases hsum
  · have hsum := ok_of_forM hchecked (hrow j false row hj hrow')
    simp only [Bool.false_eq_true, if_false, Scalar.total_eq_sum] at hsum
    by_cases hidle : (nearZero row.sum || nearOne row.sum) = true
    · simpa using hidle
    · rw [if_neg hidle] at hsum
      cases hsum

theorem single_of_checkStage (h : checkStage stage none width rows = .ok after) :
    width = 1 ∧ after = [true] := by
  unfold checkStage at h
  dsimp only at h
  by_cases hrange : (rows.any fun row => row.any fun x => decide (x < 0) || decide (1 < x)) = true
  · rw [if_pos hrange] at h
    cases h
  rw [if_neg hrange] at h
  by_cases hone : width = 1
  · rw [if_pos hone] at h
    exact ⟨hone, (Except.ok.inj h).symm⟩
  · rw [if_neg hone] at h
    cases h

theorem length_step (before : List Bool) (width : ℕ) (rows : List (List α)) :
    (step before width rows).length = width := by
  simp [step, Scalar.weightedRows]

variable [IsStrictOrderedRing α]

theorem pos_of_nearOne {s : α} (h : nearOne s = true) : 0 < s := by
  rw [nearOne, Bool.and_eq_true] at h
  have hlow : Scalar.ratio 19999 2 ≤ s * ((10000 : ℕ) : α) := of_decide_eq_true h.1
  have hratio : (0 : α) < Scalar.ratio 19999 2 := by
    rw [Scalar.ratio_eq]
    positivity
  exact pos_of_mul_pos_left (hratio.trans_le hlow) (Nat.cast_nonneg _)

/-- A state is entered from some reached one. -/
theorem Link.mem_after (h : Link before rows width after) {k : ℕ} :
    after[k]? = some true ↔ ∃ j, before[j]? = some true ∧ 0 < (rows.getD j []).getD k 0 := by
  have hentry (j : ℕ) : 0 ≤ (rows.getD j []).getD k 0 := by
    rcases hj : rows[j]? with _ | row
    · simp [hj]
    · rcases hk : row[k]? with _ | x
      · simp [hj, hk]
      · simpa [hj, hk] using (h.range row (List.mem_of_getElem? hj) x (List.mem_of_getElem? hk)).1
  have hweight (j : ℕ) : (before.map fun b => if b then (1 : α) else 0).getD j 0 =
      if before[j]? = some true then 1 else 0 := by
    rw [List.getD_eq_getElem?_getD, List.getElem?_map]
    rcases hj : before[j]? with _ | b
    · simp
    · cases b <;> simp
  have hsum : Scalar.dot (before.map fun b => if b then (1 : α) else 0)
      (rows.map fun row => row.getD k 0) =
      ∑ j ∈ Finset.range before.length, if before[j]? = some true then (rows.getD j []).getD k 0
      else 0 := by
    rw [Scalar.dot_eq_sum_range (n := before.length) (by simp)]
    refine Finset.sum_congr rfl fun j _ => ?_
    rw [hweight]
    split_ifs
    · rw [one_mul, List.getD_eq_getElem?_getD, List.getElem?_map]
      rcases hj : rows[j]? with _ | row <;> simp [hj]
    · rw [zero_mul]
  have hbound {j : ℕ} (hj : 0 < (rows.getD j []).getD k 0) : k < width := by
    by_contra hk
    rcases hrow : rows[j]? with _ | row
    · simp [hrow] at hj
    · have hlength := h.rectangular row (List.mem_of_getElem? hrow)
      simp [hrow, List.getElem?_eq_none (show row.length ≤ k by omega)] at hj
  rw [h.after, step, List.getElem?_map, Scalar.weightedRows, List.getElem?_map]
  by_cases hk : k < width
  · rw [List.getElem?_range hk, Option.map_some, Option.map_some, Option.some.injEq,
      decide_eq_true_iff, hsum,
      Finset.sum_pos_iff_of_nonneg fun j _ => by split_ifs; exacts [hentry j, le_rfl]]
    constructor
    · rintro ⟨j, -, hj⟩
      split_ifs at hj with hreached
      · exact ⟨j, hreached, hj⟩
      · exact absurd hj (lt_irrefl _)
    · rintro ⟨j, hreached, hj⟩
      have hlt := (List.getElem?_eq_some_iff.mp hreached).1
      exact ⟨j, Finset.mem_range.mpr hlt, by rwa [if_pos hreached]⟩
  · rw [List.getElem?_eq_none (by simpa using hk)]
    simp only [Option.map_none, reduceCtorEq, false_iff, not_exists, not_and]
    intro j _ hj
    exact hk (hbound hj)

omit [IsStrictOrderedRing α] in
theorem Link.length_after (h : Link before rows width after) : after.length = width := by
  rw [h.after, length_step]

/-! ### All stages -/

omit [IsStrictOrderedRing α]

/-- A chain whose stages are linked, the first one having a single state. -/
structure Linked (c : Chain α) : Prop where
  matrices : c.matrices.length = c.counts.length
  reachable : c.reachable.length = c.counts.length
  first : 0 < c.counts.length → c.counts[0]? = some 1 ∧ c.reachable[0]? = some [true]
  link : ∀ t, t + 1 < c.counts.length → Link (c.reachable.getD t []) (c.matrices.getD (t + 1) [])
    (c.counts.getD (t + 1) 0) (c.reachable.getD (t + 1) [])

variable [Numeral α]

/-- A chain that is given or that a problem has anyway. -/
def Accepted (c : Chain α) : Prop := (∃ n, c = trivial n) ∨
    ∃ matrices stages, ofDatum matrices stages = .ok c

/-- What a checked stage is made of. -/
theorem exists_of_checkStages {states : ℕ} {previous : Option (List Bool)} {item : Datum α}
    {items : List (Datum α)} (h : checkStages stage states previous (item :: items) = .ok c) :
    ∃ width rows reached rest, item.grid = .ok (.matrix width rows) ∧ rows.length = states ∧
      checkStage stage previous width rows = .ok reached ∧
      checkStages (stage + 1) width (some reached) items = .ok rest ∧
      c = ⟨rows :: rest.matrices, width :: rest.counts, reached :: rest.reachable⟩ := by
  rw [checkStages] at h
  split at h
  · cases h
  · cases h
  · rename_i width rows hgrid
    split_ifs at h with hrows
    · cases h
    · obtain ⟨reached, hreached, h⟩ := ok_of_bind h
      obtain ⟨rest, hrest, h⟩ := ok_of_bind h
      exact ⟨width, rows, reached, rest, hgrid, not_not.mp hrows, hreached, hrest,
        (Except.ok.inj h).symm⟩
  · cases h

/-- Behind a stage with known states, all stages are linked. -/
private theorem link_of_checkStages {items : List (Datum α)} (hstates : before.length = width)
    (h : checkStages stage width (some before) items = .ok c) :
    c.matrices.length = c.counts.length ∧ c.reachable.length = c.counts.length ∧
      ∀ t < c.counts.length, Link ((before :: c.reachable).getD t []) (c.matrices.getD t [])
        (c.counts.getD t 0)
        (c.reachable.getD t []) := by
  induction items generalizing stage width before c with
  | nil =>
    obtain rfl := Except.ok.inj h
    exact ⟨rfl, rfl, fun t ht => absurd ht (Nat.not_lt_zero t)⟩
  | cons item items ih =>
    obtain ⟨width', rows, reached, rest, hgrid, hrows, hreached, hrest, rfl⟩ :=
      exists_of_checkStages h
    have hlink := link_of_checkStage (hrows.trans hstates.symm)
      (fun row => Datum.length_of_grid hgrid) hreached
    obtain ⟨hmatrices, hreachable, hlinks⟩ := ih hlink.length_after hrest
    refine ⟨congrArg (· + 1) hmatrices, congrArg (· + 1) hreachable, fun t ht => ?_⟩
    cases t with
    | zero => exact hlink
    | succ t => exact hlinks t (Nat.lt_of_succ_lt_succ ht)

theorem linked_of_ofDatum {matrices stages : Datum α} (h : ofDatum matrices stages = .ok c) :
    c.Linked := by
  unfold ofDatum at h
  rcases hitems : matrices.items? with _ | items
  · rw [hitems] at h
    cases h
  rw [hitems] at h
  dsimp only at h
  split_ifs at h
  cases items with
  | nil =>
    obtain rfl := Except.ok.inj h
    exact ⟨rfl, rfl, fun h => absurd h (Nat.lt_irrefl 0), fun t ht => absurd ht (Nat.not_lt_zero _)⟩
  | cons item items =>
    obtain ⟨width, rows, reached, rest, hgrid, hrows, hreached, hrest, rfl⟩ :=
      exists_of_checkStages h
    obtain ⟨rfl, rfl⟩ := single_of_checkStage hreached
    obtain ⟨hmatrices, hreachable, hlinks⟩ := link_of_checkStages (rfl : [true].length = 1) hrest
    exact ⟨congrArg (· + 1) hmatrices, congrArg (· + 1) hreachable, fun _ => ⟨rfl, rfl⟩,
      fun t ht => hlinks t (Nat.lt_of_succ_lt_succ ht)⟩

private theorem length_of_checkStages {stage states : ℕ} {previous : Option (List Bool)}
    {items : List (Datum α)} (h : checkStages stage states previous items = .ok c) :
    c.counts.length = items.length := by
  induction items generalizing stage states previous c with
  | nil =>
    obtain rfl := Except.ok.inj h
    rfl
  | cons item items ih =>
    obtain ⟨width, rows, reached, rest, -, -, -, hrest, rfl⟩ := exists_of_checkStages h
    exact congrArg (· + 1) (ih hrest)

theorem isWhole_of_ofDatum {matrices stages : Datum α} (h : ofDatum matrices stages = .ok c) :
    stages.isWhole c.counts.length = true := by
  unfold ofDatum at h
  rcases hitems : matrices.items? with _ | items
  · rw [hitems] at h
    cases h
  rw [hitems] at h
  dsimp only at h
  split_ifs at h with hstages
  rw [length_of_checkStages h]
  simpa using hstages

omit [Numeral α] in
theorem linked_trivial [IsStrictOrderedRing α] (n : ℕ) : (trivial n : Chain α).Linked where
  matrices := by simp [trivial]
  reachable := by simp [trivial]
  first := fun h => by
    have hn : 0 < n := by simpa [trivial] using h
    simp [trivial, hn]
  link := fun t ht => by
    have ht : t + 1 < n := by simpa [trivial] using ht
    have hone : nearOne (1 : α) = true := by
      simp only [nearOne, Scalar.ratio_eq, Bool.and_eq_true]
      constructor <;> norm_num
    have hstep : [true] = step [true] 1 [[(1 : α)]] := by simp [step, Scalar.weightedRows]
    simp only [trivial, List.getD_eq_getElem?_getD, List.getElem?_replicate, ht,
      Nat.lt_of_succ_lt ht, if_true,
      Option.getD_some]
    refine ⟨rfl, by simp, by simp, fun j row _ hrow => ?_, fun j row _ hrow => ?_, hstep⟩
    · obtain rfl : row = [1] := by simpa using List.mem_of_getElem? hrow
      simpa using hone
    · obtain rfl : row = [1] := by simpa using List.mem_of_getElem? hrow
      exact .inr (by simpa using hone)

theorem Accepted.linked [IsStrictOrderedRing α] (h : c.Accepted) : c.Linked := by
  obtain ⟨n, rfl⟩ | ⟨matrices, stages, h⟩ := h
  · exact linked_trivial n
  · exact linked_of_ofDatum h

end Chain

end Recourse
