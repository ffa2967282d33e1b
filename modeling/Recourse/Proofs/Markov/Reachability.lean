import Recourse.Proofs.Fraction
import Recourse.Proofs.Markov.Chain
import Recourse.Decimal.Read

/-! Which chains are accepted, and what is known of them. A chain is accepted just if its matrices
follow the rules, where the rows that have to add up to one are those of the states that some walk
reaches; and the states that are marked as reachable are those that some walk reaches. -/

namespace Recourse

namespace Chain

variable {α : Type} [Field α] [LinearOrder α] {c : Chain α} {before after : List Bool}
  {width stage t j k : ℕ}
  {rows : List (List α)}

/-! ### Walks -/

def probability (c : Chain α) (t j k : ℕ) : α := ((c.matrices.getD t []).getD j []).getD k 0

/-- A sequence of states up to a stage, from the first state on, each step of which has positive
probability. -/
structure Walk (c : Chain α) (t : ℕ) (path : ℕ → ℕ) : Prop where
  start : path 0 = 0
  step : ∀ s < t, 0 < c.probability (s + 1) (path s) (path (s + 1))

def Reaches (c : Chain α) (t k : ℕ) : Prop := ∃ path, c.Walk t path ∧ path t = k

theorem reaches_zero : c.Reaches 0 k ↔ k = 0 := by
  constructor
  · rintro ⟨path, hpath, rfl⟩
    exact hpath.start
  · rintro rfl
    exact ⟨fun _ => 0, ⟨rfl, fun s hs => absurd hs (Nat.not_lt_zero s)⟩, rfl⟩

theorem reaches_succ : c.Reaches (t + 1) k ↔
    ∃ j, c.Reaches t j ∧ 0 < c.probability (t + 1) j k := by
  constructor
  · rintro ⟨path, hpath, rfl⟩
    exact ⟨path t, ⟨path, ⟨hpath.start, fun s hs => hpath.step s (by omega)⟩, rfl⟩,
      hpath.step t (by omega)⟩
  · rintro ⟨j, ⟨path, hpath, rfl⟩, hpos⟩
    refine ⟨fun s => if s ≤ t then path s else k, ⟨?_, ?_⟩, ?_⟩
    · simpa using hpath.start
    · intro s hs
      rcases Nat.lt_succ_iff_lt_or_eq.mp hs with hs | rfl
      · have hle : s ≤ t := by omega
        have hle' : s + 1 ≤ t := by omega
        simpa only [if_pos hle, if_pos hle'] using hpath.step s hs
      · have hnot : ¬ s + 1 ≤ s := by omega
        simpa only [le_refl, if_true, if_neg hnot] using hpos
    · have hnot : ¬ t + 1 ≤ t := by omega
      simp only [if_neg hnot]

/-! ### The rules -/

/-- Whether a sum is a whole number once it is rounded to four places. A half goes to the even
neighbour, so both ends belong to zero and to one. -/
def RoundsTo (s m : α) : Prop := |s - m| ≤ 1 / 20000

/-- The rules for the matrices of a chain, and what belongs to it besides the matrices. -/
structure Proper (c : Chain α) : Prop where
  matrices : c.matrices.length = c.counts.length
  reachable : c.reachable.length = c.counts.length
  first : 0 < c.counts.length → (c.matrices.getD 0 []).length = 1 ∧ c.counts.getD 0 0 = 1
  rows : ∀ t, t + 1 < c.counts.length → (c.matrices.getD (t + 1) []).length = c.counts.getD t 0
  columns : ∀ t < c.counts.length, ∀ row ∈ c.matrices.getD t [], row.length = c.counts.getD t 0
  range : ∀ t < c.counts.length, ∀ row ∈ c.matrices.getD t [], ∀ x ∈ row, 0 ≤ x ∧ x ≤ 1
  sum : ∀ t j row, c.Reaches t j → (c.matrices.getD (t + 1) [])[j]? = some row → RoundsTo row.sum 1
  idle : ∀ t j row, ¬ c.Reaches t j → (c.matrices.getD (t + 1) [])[j]? = some row →
    RoundsTo row.sum 0 ∨ RoundsTo row.sum 1
  states : ∀ t < c.counts.length, (c.reachable.getD t []).length = c.counts.getD t 0
  exact : ∀ t < c.counts.length, ∀ k, (c.reachable.getD t [])[k]? = some true ↔ c.Reaches t k

section

variable [IsStrictOrderedRing α]

theorem nearOne_iff {s : α} : nearOne s = true ↔ RoundsTo s 1 := by
  rw [nearOne, Bool.and_eq_true, decide_eq_true_iff, decide_eq_true_iff, Scalar.ratio_eq,
    Scalar.ratio_eq, RoundsTo, abs_le]
  push_cast
  constructor
  · rintro ⟨hlow, hhigh⟩
    constructor <;> linarith
  · rintro ⟨hlow, hhigh⟩
    constructor <;> linarith

theorem nearZero_iff {s : α} : nearZero s = true ↔ RoundsTo s 0 := by
  rw [nearZero, Bool.and_eq_true, decide_eq_true_iff, decide_eq_true_iff, Scalar.ratio_eq, RoundsTo,
    abs_le, sub_zero]
  push_cast
  constructor
  · rintro ⟨hlow, hhigh⟩
    constructor <;> linarith
  · rintro ⟨hlow, hhigh⟩
    constructor <;> linarith

end

/-! ### One stage -/

theorem any_outside_iff :
    (rows.any fun row => row.any fun x => decide (x < 0) || decide (1 < x)) = false ↔
    ∀ row ∈ rows, ∀ x ∈ row, 0 ≤ x ∧ x ≤ 1 := by
  simp only [List.any_eq_false, Bool.not_eq_true, List.any_eq_false, Bool.or_eq_false_iff,
    decide_eq_false_iff_not, not_lt]

theorem checkStage_first_iff : checkStage stage none width rows = .ok after ↔
    (∀ row ∈ rows, ∀ x ∈ row, 0 ≤ x ∧ x ≤ 1) ∧ width = 1 ∧ after = [true] := by
  rw [← any_outside_iff]
  constructor
  · intro h
    refine ⟨?_, single_of_checkStage h⟩
    by_contra hrange
    rw [checkStage, if_pos (Bool.not_eq_false _ ▸ hrange)] at h
    cases h
  · rintro ⟨hrange, rfl, rfl⟩
    rw [checkStage, hrange]
    rfl

theorem checkStage_of_link (h : Link before rows width after) :
    checkStage stage (some before) width rows = .ok after := by
  have hrange := any_outside_iff.mpr h.range
  have hrows : checkRows stage before rows = .ok () := by
    refine forM_ok ?_
    rintro ⟨⟨reached, row⟩, j⟩ hmem
    obtain ⟨hreached, hrow⟩ := List.getElem?_zip_eq_some.mp (List.mem_zipIdx_iff_getElem?.mp hmem)
    simp only [Scalar.total_eq_sum]
    cases reached with
    | true => simp only [if_true, h.sum j row hreached hrow]
    | false =>
      have hidle : (nearZero row.sum || nearOne row.sum) = true := by
        simpa using h.idle j row hreached hrow
      simp only [Bool.false_eq_true, if_false, hidle, if_true]
  rw [checkStage, hrange, h.after]
  simp only [hrows]
  rfl

theorem fault_of_checkStage {previous : Option (List Bool)} {e : Fault α}
    (h : checkStage stage previous width rows = .error e) :
    ∃ cause, e = .construction cause := by
  unfold checkStage at h
  dsimp only at h
  by_cases hrange : (rows.any fun row => row.any fun x => decide (x < 0) || decide (1 < x)) = true
  · rw [if_pos hrange] at h
    exact ⟨_, (Except.error.inj h).symm⟩
  rw [if_neg hrange] at h
  cases previous with
  | none =>
    dsimp only at h
    split_ifs at h
    · cases h
    · exact ⟨_, (Except.error.inj h).symm⟩
  | some reached =>
    rcases error_of_bind h with h | ⟨_, -, h⟩
    · obtain ⟨⟨⟨_, row⟩, j⟩, -, h⟩ := error_of_forM h
      dsimp only at h
      split_ifs at h
      · exact ⟨_, (Except.error.inj h).symm⟩
      · exact ⟨_, (Except.error.inj h).symm⟩
    · cases h

/-! ### All stages -/

section

variable [Numeral α]

def Spelled (items : List (Datum α)) (c : Chain α) : Prop :=
  List.Forall₂ (fun item (m : ℕ × List (List α)) => item.grid = .ok (.matrix m.1 m.2)) items
    (c.counts.zip c.matrices)

theorem Spelled.eq_empty (h : c.Spelled []) (hmatrices : c.matrices.length = c.counts.length)
    (hreachable : c.reachable.length = c.counts.length) : c = ⟨[], [], []⟩ := by
  obtain ⟨ms, ns, rs⟩ := c
  have hlength := congrArg List.length (List.forall₂_nil_left_iff.mp h)
  simp only [List.length_zip, List.length_nil] at hlength hmatrices hreachable
  obtain rfl : ms = [] := List.length_eq_zero_iff.mp (by omega)
  obtain rfl : ns = [] := List.length_eq_zero_iff.mp (by omega)
  obtain rfl : rs = [] := List.length_eq_zero_iff.mp (by omega)
  rfl

theorem Spelled.exists_cons {item : Datum α} {items : List (Datum α)}
    (h : c.Spelled (item :: items))
    (hmatrices : c.matrices.length = c.counts.length)
    (hreachable : c.reachable.length = c.counts.length) :
    ∃ width rows reached rest, item.grid = .ok (.matrix width rows) ∧ Spelled items rest ∧
      c = ⟨rows :: rest.matrices, width :: rest.counts, reached :: rest.reachable⟩ := by
  obtain ⟨ms, ns, rs⟩ := c
  obtain ⟨⟨width, rows⟩, zipped, hgrid, hspelled, hzip⟩ := List.forall₂_cons_left_iff.mp h
  cases ns with
  | nil => cases hzip
  | cons n ns =>
    cases ms with
    | nil => cases hzip
    | cons m ms =>
      cases rs with
      | nil => cases hreachable
      | cons reached rs =>
        obtain ⟨⟨rfl, rfl⟩, rfl⟩ : (n = width ∧ m = rows) ∧ ns.zip ms = zipped := by
          simpa using hzip
        exact ⟨n, m, reached, ⟨ms, ns, rs⟩, hgrid, hspelled, rfl⟩

theorem checkStages_cons {states : ℕ} {previous : Option (List Bool)} {item : Datum α}
    {items : List (Datum α)}
    {reached : List Bool} {rest : Chain α} (hgrid : item.grid = .ok (.matrix width rows))
    (hrows : rows.length = states) (hreached : checkStage stage previous width rows = .ok reached)
    (hrest : checkStages (stage + 1) width (some reached) items = .ok rest) :
    checkStages stage states previous (item :: items) =
      .ok ⟨rows :: rest.matrices, width :: rest.counts, reached :: rest.reachable⟩ := by
  rw [checkStages, hgrid]
  dsimp only
  rw [if_neg (not_not.mpr hrows), hreached]
  change (checkStages (stage + 1) width (some reached) items >>= _) = _
  rw [hrest]
  rfl

/-- Behind a stage with known states, the check accepts the matrices that link one stage to the
next. -/
theorem checkStages_eq_ok_iff {items : List (Datum α)} :
    checkStages stage before.length (some before) items = .ok c ↔
      c.Spelled items ∧ c.matrices.length = c.counts.length ∧ c.reachable.length = c.counts.length ∧
        ∀ t < c.counts.length,
        Link ((before :: c.reachable).getD t []) (c.matrices.getD t []) (c.counts.getD t 0)
          (c.reachable.getD t []) := by
  induction items generalizing stage before c with
  | nil =>
    constructor
    · intro h
      obtain rfl := Except.ok.inj h
      exact ⟨.nil, rfl, rfl, fun t ht => absurd ht (Nat.not_lt_zero t)⟩
    · rintro ⟨hspelled, hmatrices, hreachable, -⟩
      obtain rfl := hspelled.eq_empty hmatrices hreachable
      rfl
  | cons item items ih =>
    constructor
    · intro h
      obtain ⟨width, rows, reached, rest, hgrid, hrows, hreached, hrest, rfl⟩ :=
        exists_of_checkStages h
      have hlink := link_of_checkStage hrows (fun row => Datum.length_of_grid hgrid) hreached
      rw [← hlink.length_after] at hrest
      obtain ⟨hspelled, hmatrices, hreachable, hlinks⟩ := ih.mp hrest
      refine ⟨.cons hgrid hspelled, congrArg (· + 1) hmatrices, congrArg (· + 1) hreachable, ?_⟩
      intro t ht
      cases t with
      | zero => exact hlink
      | succ t => exact hlinks t (Nat.lt_of_succ_lt_succ ht)
    · rintro ⟨hspelled, hmatrices, hreachable, hlinks⟩
      obtain ⟨width, rows, reached, rest, hgrid, htail, rfl⟩ :=
        hspelled.exists_cons hmatrices hreachable
      have hlink : Link before rows width reached := hlinks 0 (Nat.succ_pos _)
      refine checkStages_cons hgrid hlink.height (checkStage_of_link hlink) ?_
      rw [← hlink.length_after]
      refine ih.mpr ⟨htail, Nat.succ.inj hmatrices, Nat.succ.inj hreachable, ?_⟩
      intro t ht
      exact hlinks (t + 1) (Nat.succ_lt_succ ht)

/-- The check accepts the matrices that start with a single state and link one stage to the next. -/
theorem ofDatum_eq_ok_iff {items : List (Datum α)} {stages : Datum α} :
    ofDatum (.list items) stages = .ok c ↔ stages.isWhole items.length = true ∧
    c.Spelled items ∧ c.Linked ∧
      (0 < c.counts.length → (c.matrices.getD 0 []).length = 1 ∧
        ∀ row ∈ c.matrices.getD 0 [], row.length = 1 ∧ ∀ x ∈ row, 0 ≤ x ∧ x ≤ 1) := by
  have hdatum : ofDatum (.list items) stages = if !stages.isWhole items.length then
      .error (.construction (.chainLength items.length stages))
        else checkStages 0 1 none items := rfl
  rw [hdatum]
  constructor
  · intro h
    have hlinked := linked_of_ofDatum (hdatum.trans h)
    split_ifs at h with hwhole
    refine ⟨by simpa using hwhole, ?_⟩
    cases items with
    | nil =>
      obtain rfl := Except.ok.inj h
      exact ⟨.nil, hlinked, fun hpos => absurd hpos (Nat.lt_irrefl 0)⟩
    | cons item items =>
      obtain ⟨width, rows, reached, rest, hgrid, hrows, hreached, hrest, rfl⟩ :=
        exists_of_checkStages h
      obtain ⟨hrange, rfl, rfl⟩ := checkStage_first_iff.mp hreached
      change checkStages 1 [true].length (some [true]) items = .ok rest at hrest
      obtain ⟨hspelled, -⟩ := checkStages_eq_ok_iff.mp hrest
      refine ⟨.cons hgrid hspelled, hlinked, fun _ => ⟨hrows, ?_⟩⟩
      intro row hrow
      exact ⟨Datum.length_of_grid hgrid hrow, hrange row hrow⟩
  · rintro ⟨hwhole, hspelled, hlinked, hfirst⟩
    rw [if_neg (by simpa using hwhole)]
    cases items with
    | nil =>
      obtain rfl := hspelled.eq_empty hlinked.matrices hlinked.reachable
      rfl
    | cons item items =>
      obtain ⟨width, rows, reached, rest, hgrid, htail, rfl⟩ :=
        hspelled.exists_cons hlinked.matrices hlinked.reachable
      obtain ⟨hone, hreached⟩ := hlinked.first (Nat.succ_pos _)
      obtain rfl : width = 1 := Option.some.inj hone
      obtain rfl : reached = [true] := Option.some.inj hreached
      obtain ⟨hheight, hrow⟩ := hfirst (Nat.succ_pos _)
      refine checkStages_cons hgrid hheight
        (checkStage_first_iff.mpr ⟨fun row h => (hrow row h).2, rfl, rfl⟩) ?_
      change checkStages 1 [true].length (some [true]) items = .ok rest
      refine checkStages_eq_ok_iff.mpr
        ⟨htail, Nat.succ.inj hlinked.matrices, Nat.succ.inj hlinked.reachable, ?_⟩
      intro t ht
      exact hlinked.link t (Nat.succ_lt_succ ht)

/-- The check fails for a cause that it names, or where an entry is too large to be represented. -/
theorem fault_of_checkStages {states : ℕ} {previous : Option (List Bool)} {items : List (Datum α)}
    {e : Fault α} (h : checkStages stage states previous items = .error e) :
    (∃ cause, e = .construction cause) ∨ ∃ item ∈ items, item.grid = .error .overflow := by
  induction items generalizing stage states previous e with
  | nil => cases h
  | cons item items ih =>
    rw [checkStages] at h
    split at h
    · rename_i hgrid
      exact .inr ⟨item, List.mem_cons_self, hgrid⟩
    · obtain rfl := Except.error.inj h
      exact .inl ⟨_, rfl⟩
    · rename_i width rows hgrid
      split_ifs at h
      · obtain rfl := Except.error.inj h
        exact .inl ⟨_, rfl⟩
      · rcases error_of_bind h with hstage | ⟨reached, -, h⟩
        · exact .inl (fault_of_checkStage hstage)
        · rcases error_of_bind h with hrest | ⟨rest, -, h⟩
          · refine (ih hrest).imp_right ?_
            rintro ⟨other, hother, hgrid⟩
            exact ⟨other, List.mem_cons_of_mem item hother, hgrid⟩
          · cases h
    · obtain rfl := Except.error.inj h
      exact .inl ⟨_, rfl⟩

theorem fault_of_ofDatum {items : List (Datum α)} {stages : Datum α} {e : Fault α}
    (h : ofDatum (.list items) stages = .error e) :
    (∃ cause, e = .construction cause) ∨ ∃ item ∈ items, item.grid = .error .overflow := by
  unfold ofDatum at h
  dsimp only [Datum.items?] at h
  split_ifs at h
  · exact .inl ⟨_, (Except.error.inj h).symm⟩
  · exact fault_of_checkStages h

end

/-! ### Walks and links -/

theorem eq_of_marks {xs ys : List Bool} (hlength : xs.length = ys.length)
    (h : ∀ k : ℕ, xs[k]? = some true ↔ ys[k]? = some true) : xs = ys := by
  apply List.ext_getElem hlength
  intro k hx hy
  have hk := h k
  rw [List.getElem?_eq_getElem hx, List.getElem?_eq_getElem hy, Option.some.injEq,
    Option.some.injEq] at hk
  exact Bool.eq_iff_iff.mpr hk

section

variable [IsStrictOrderedRing α]

/-- The states that are marked are those that a walk reaches. -/
theorem Linked.reaches_iff (h : c.Linked) (ht : t < c.counts.length) :
    (c.reachable.getD t [])[k]? = some true ↔ c.Reaches t k := by
  induction t generalizing k with
  | zero =>
    have hfirst : c.reachable.getD 0 [] = [true] := by
      rw [List.getD_eq_getElem?_getD, (h.first ht).2, Option.getD_some]
    rw [hfirst, reaches_zero]
    cases k <;> simp
  | succ t ih =>
    rw [(h.link t ht).mem_after, reaches_succ]
    simp only [ih (Nat.lt_of_succ_lt ht), probability]

omit [IsStrictOrderedRing α] in
private theorem Linked.exists_link (h : c.Linked) {row : List α}
    (hrow : (c.matrices.getD (t + 1) [])[j]? = some row) :
    t + 1 < c.counts.length ∧ j < (c.reachable.getD t []).length := by
  have ht : t + 1 < c.counts.length := by
    by_contra hout
    have hlength : c.matrices.length ≤ t + 1 := by
      rw [h.matrices]
      omega
    rw [List.getD_eq_getElem?_getD, List.getElem?_eq_none hlength] at hrow
    cases hrow
  exact ⟨ht, (h.link t ht).height ▸ (List.getElem?_eq_some_iff.mp hrow).1⟩

theorem Linked.proper (h : c.Linked) (hfirst : 0 < c.counts.length →
      (c.matrices.getD 0 []).length = 1 ∧
    ∀ row ∈ c.matrices.getD 0 [], row.length = 1 ∧ ∀ x ∈ row, 0 ≤ x ∧ x ≤ 1) : c.Proper where
  matrices := h.matrices
  reachable := h.reachable
  first := fun hpos =>
    ⟨(hfirst hpos).1, by rw [List.getD_eq_getElem?_getD, (h.first hpos).1, Option.getD_some]⟩
  rows := fun t ht => by
    rw [(h.link t ht).height]
    cases t with
    | zero =>
      have hpos := Nat.zero_lt_of_lt ht
      simp [List.getD_eq_getElem?_getD, h.first hpos]
    | succ t => exact (h.link t (Nat.lt_of_succ_lt ht)).length_after
  columns := fun t ht row hrow => by
    cases t with
    | zero =>
      rw [((hfirst ht).2 row hrow).1, List.getD_eq_getElem?_getD, (h.first ht).1, Option.getD_some]
    | succ t => exact (h.link t ht).rectangular row hrow
  range := fun t ht row hrow => by
    cases t with
    | zero => exact ((hfirst ht).2 row hrow).2
    | succ t => exact (h.link t ht).range row hrow
  sum := fun t j row hreached hrow => by
    have ht := (h.exists_link hrow).1
    exact nearOne_iff.mp ((h.link t ht).sum j row
      ((h.reaches_iff (Nat.lt_of_succ_lt ht)).mpr hreached) hrow)
  idle := fun t j row hreached hrow => by
    obtain ⟨ht, hj⟩ := h.exists_link hrow
    rw [← h.reaches_iff (Nat.lt_of_succ_lt ht), List.getElem?_eq_getElem hj, Option.some.injEq,
      Bool.not_eq_true] at hreached
    have hmark : (c.reachable.getD t [])[j]? = some false := by
      rw [List.getElem?_eq_getElem hj, hreached]
    exact ((h.link t ht).idle j row hmark hrow).imp nearZero_iff.mp nearOne_iff.mp
  states := fun t ht => by
    cases t with
    | zero => simp [List.getD_eq_getElem?_getD, h.first ht]
    | succ t => exact (h.link t ht).length_after
  exact := fun t ht k => h.reaches_iff ht

theorem Proper.linked (h : c.Proper) : c.Linked where
  matrices := h.matrices
  reachable := h.reachable
  first := fun hpos => by
    have hcount := (h.first hpos).2
    have hstates := h.states 0 hpos
    have hlt : 0 < c.reachable.length := h.reachable ▸ hpos
    rw [List.getD_eq_getElem?_getD, List.getElem?_eq_getElem hpos, Option.getD_some] at hcount
    rw [List.getElem?_eq_getElem hpos, hcount, List.getElem?_eq_getElem hlt]
    refine ⟨rfl, congrArg some (eq_of_marks ?_ fun k => ?_)⟩
    · simpa [List.getD_eq_getElem?_getD, List.getElem?_eq_getElem hpos,
        List.getElem?_eq_getElem hlt, hcount] using hstates
    · have hexact := h.exact 0 hpos k
      rw [List.getD_eq_getElem?_getD, List.getElem?_eq_getElem hlt, Option.getD_some,
        reaches_zero] at hexact
      rw [hexact]
      cases k <;> simp
  link := fun t ht => by
    have hbefore := Nat.lt_of_succ_lt ht
    have hstep : Link (c.reachable.getD t []) (c.matrices.getD (t + 1) []) (c.counts.getD (t + 1) 0)
        (step (c.reachable.getD t []) (c.counts.getD (t + 1) 0) (c.matrices.getD (t + 1) [])) := by
      refine ⟨(h.rows t ht).trans (h.states t hbefore).symm, h.columns (t + 1) ht,
        h.range (t + 1) ht, ?_, ?_, rfl⟩
      · intro j row hmark hrow
        exact nearOne_iff.mpr (h.sum t j row ((h.exact t hbefore j).mp hmark) hrow)
      · intro j row hmark hrow
        have hreached : ¬ c.Reaches t j := by
          rw [← h.exact t hbefore j, hmark]
          simp
        exact (h.idle t j row hreached hrow).imp nearZero_iff.mpr nearOne_iff.mpr
    have hafter : c.reachable.getD (t + 1) [] =
        step (c.reachable.getD t []) (c.counts.getD (t + 1) 0) (c.matrices.getD (t + 1) []) := by
      apply eq_of_marks ((h.states (t + 1) ht).trans (length_step _ _ _).symm)
      intro k
      rw [h.exact (t + 1) ht, hstep.mem_after, reaches_succ]
      simp only [h.exact t hbefore, probability]
    rw [hafter]
    exact hstep

/-! ### What follows -/

theorem Proper.exists_pos (h : c.Proper) (ht : t + 1 < c.counts.length) (hj : c.Reaches t j) :
    ∃ k, 0 < c.probability (t + 1) j k := by
  have hmark := (List.getElem?_eq_some_iff.mp ((h.exact t (Nat.lt_of_succ_lt ht) j).mpr hj)).1
  have hlt : j < (c.matrices.getD (t + 1) []).length := by
    rw [h.rows t ht, ← h.states t (Nat.lt_of_succ_lt ht)]
    exact hmark
  have hrow := List.getElem?_eq_getElem hlt
  have hsum : 0 < (c.matrices.getD (t + 1) [])[j].sum :=
    pos_of_nearOne (nearOne_iff.mpr (h.sum t j _ hj hrow))
  have hentry : ∃ x ∈ (c.matrices.getD (t + 1) [])[j], 0 < x :=
    List.exists_lt_of_sum_lt (fun _ => (0 : α)) id (by simpa using hsum)
  obtain ⟨x, hx, hpos⟩ := hentry
  obtain ⟨k, hk⟩ := List.mem_iff_getElem?.mp hx
  refine ⟨k, ?_⟩
  rw [probability, List.getD_eq_getElem?_getD (l := c.matrices.getD (t + 1) []), hrow,
    Option.getD_some,
    List.getD_eq_getElem?_getD, hk]
  exact hpos

theorem Proper.exists_reaches (h : c.Proper) (ht : t < c.counts.length) : ∃ k, c.Reaches t k := by
  induction t with
  | zero => exact ⟨0, reaches_zero.mpr rfl⟩
  | succ t ih =>
    obtain ⟨j, hj⟩ := ih (Nat.lt_of_succ_lt ht)
    obtain ⟨k, hpos⟩ := h.exists_pos ht hj
    exact ⟨k, reaches_succ.mpr ⟨j, hj, hpos⟩⟩

omit [IsStrictOrderedRing α] in
/-- What a marked state moves to with positive probability is marked. -/
theorem Proper.marked (h : c.Proper) (hj : (c.reachable.getD t [])[j]? = some true)
    (hpos : 0 < c.probability (t + 1) j k) :
    (c.reachable.getD (t + 1) [])[k]? = some true := by
  have ht : t + 1 < c.counts.length := by
    by_contra hout
    have hlength : c.matrices.length ≤ t + 1 := by
      rw [h.matrices]
      omega
    rw [probability, List.getD_eq_getElem?_getD (l := c.matrices),
      List.getElem?_eq_none hlength] at hpos
    simp at hpos
  rw [h.exact (t + 1) ht, reaches_succ]
  exact ⟨j, (h.exact t (Nat.lt_of_succ_lt ht) j).mp hj, hpos⟩

variable [Numeral α]

theorem ofDatum_eq_ok_iff_proper {items : List (Datum α)} {stages : Datum α} :
    ofDatum (.list items) stages = .ok c ↔ stages.isWhole items.length = true ∧ c.Spelled items ∧
    c.Proper := by
  rw [ofDatum_eq_ok_iff]
  constructor
  · rintro ⟨hwhole, hspelled, hlinked, hfirst⟩
    exact ⟨hwhole, hspelled, hlinked.proper hfirst⟩
  · rintro ⟨hwhole, hspelled, hproper⟩
    refine ⟨hwhole, hspelled, hproper.linked,
      fun hpos => ⟨(hproper.first hpos).1, fun row hrow => ?_⟩⟩
    exact ⟨(hproper.columns 0 hpos row hrow).trans (hproper.first hpos).2,
      hproper.range 0 hpos row hrow⟩

/-- A list is accepted just if it spells as many matrices as there are stages and these follow the
rules, where the marked states are those that a walk reaches. Every stage of an accepted chain has a
marked state, and what a marked state moves to with positive probability is marked. A list that is
not accepted is refused with the rule that it breaks, unless an entry is too large to be
represented. -/
theorem accepted_iff_proper (items : List (Datum α)) (stages : Datum α) :
    (∀ c : Chain α, ofDatum (.list items) stages = .ok c ↔
      stages.isWhole items.length = true ∧ c.Spelled items ∧ c.Proper) ∧
    (∀ c : Chain α, ofDatum (.list items) stages = .ok c → ∀ t < c.counts.length,
      (∃ k : ℕ, (c.reachable.getD t [])[k]? = some true) ∧
      ∀ j k : ℕ, (c.reachable.getD t [])[j]? = some true → 0 < c.probability (t + 1) j k →
        (c.reachable.getD (t + 1) [])[k]? = some true) ∧
    ((∀ item ∈ items, item.grid ≠ .error .overflow) →
      (¬ ∃ c : Chain α, stages.isWhole items.length = true ∧ c.Spelled items ∧ c.Proper) →
      ∃ cause, ofDatum (.list items) stages = .error (.construction cause)) := by
  refine ⟨fun c => ofDatum_eq_ok_iff_proper, ?_, ?_⟩
  · intro c h t ht
    obtain ⟨-, -, hproper⟩ := ofDatum_eq_ok_iff_proper.mp h
    obtain ⟨k, hk⟩ := hproper.exists_reaches ht
    exact ⟨⟨k, (hproper.exact t ht k).mpr hk⟩, fun j k => hproper.marked⟩
  · intro hgrid hnone
    rcases h : ofDatum (.list items) stages with e | c
    · obtain ⟨cause, rfl⟩ | ⟨item, hitem, hoverflow⟩ := fault_of_ofDatum h
      · exact ⟨cause, rfl⟩
      · exact absurd hoverflow (hgrid item hitem)
    · exact absurd ⟨c, ofDatum_eq_ok_iff_proper.mp h⟩ hnone

/-- Three stages, where the second state of the middle one is never entered and has a row of
zeros. -/
def idleMatrices : List (Datum ℚ) :=
  [.list [.list [.int 1]], .list [.list [.int 1, .int 0]], .list [.list [.int 1], .list [.int 0]]]

def brokenMatrices : List (Datum ℚ) :=
  [.list [.list [.int 1]], .list [.list [.int 0, .int 1]], .list [.list [.int 1], .list [.int 0]]]

/-- A row of zeros is accepted for a state that is never entered, and refused for one that is. -/
theorem accepted_iff_proper_idle :
    (∃ c : Chain ℚ, ofDatum (.list idleMatrices) (.int 3) = .ok c ∧
      c.reachable = [[true], [true, false], [true]] ∧ c.Proper) ∧
    ∃ cause, ofDatum (.list brokenMatrices) (.int 3) = .error (.construction cause) := by
  constructor
  · have hmarks : (ofDatum (.list idleMatrices) (.int 3)).toOption.map reachable = some
        [[true], [true, false], [true]] := by
      decide +kernel
    obtain ⟨c, hc, hreachable⟩ := Option.map_eq_some_iff.mp hmarks
    have haccepted := ok_of_toOption hc
    exact ⟨c, haccepted, hreachable,
      (((accepted_iff_proper idleMatrices (.int 3)).1 c).mp haccepted).2.2⟩
  · have hgrid : (brokenMatrices.all fun item => item.grid.toOption.isSome) = true := by
      decide +kernel
    have hrefused : (ofDatum (.list brokenMatrices) (.int 3)).toOption.isNone = true := by
      decide +kernel
    obtain ⟨hiff, -, hfault⟩ := accepted_iff_proper brokenMatrices (.int 3)
    refine hfault ?_ ?_
    · intro item hitem hoverflow
      have hsome := List.all_eq_true.mp hgrid item hitem
      rw [hoverflow] at hsome
      cases hsome
    · rintro ⟨c, hproper⟩
      rw [(hiff c).mpr hproper] at hrefused
      cases hrefused

end

/-! ### Entries beyond the numbers -/

theorem ofDatum_overflow {β : Type} [Scalar β] [Numeral β] {n : ℤ}
    (h : (Numeral.ofInt? n : Option β) = none) :
    (ofDatum (.list [.list [.list [.int n]]]) (.int 1) : Except (Fault β) (Chain β)) =
    .error .overflow := by
  have hdatum : (ofDatum (.list [.list [.list [.int n]]]) (.int 1) : Except (Fault β) (Chain β)) =
      checkStages 0 1 none [.list [.list [.int n]]] := rfl
  have hgrid : (Datum.list [.list [.int n]] : Datum β).grid = .error .overflow := by
    simp only [Datum.grid, Datum.shape?, Datum.allOfShape, Datum.children]
    simp [Datum.cell, Datum.asNumeral, Datum.asNumber, Datum.ofWhole, h, Except.map]
  rw [hdatum, checkStages, hgrid]

/-- Above all numbers of the system, the entry fails to be read; and an unknown entry of the first
stage is accepted. -/
theorem range_unchecked :
    (ofDatum (.list [.list [.list [.int (10 ^ 309)]]]) (.int 1) : Except (Fault Float)
      (Chain Float)) = .error .overflow ∧
    ∃ c : Chain Float, ofDatum (.list [.list [.list [.null]]]) (.int 1) = .ok c := by
  constructor
  · exact ofDatum_overflow (by decide +kernel)
  · have hsome : (ofDatum (.list [.list [.list [.null]]]) (.int 1) : Except (Fault Float)
        (Chain Float)).toOption.isSome =
        true := by decide +kernel
    obtain ⟨c, hc⟩ := Option.isSome_iff_exists.mp hsome
    exact ⟨c, ok_of_toOption hc⟩

end Chain

end Recourse
