import Recourse.Proofs.Multistage.CostToGo
import Recourse.Proofs.Run
import Recourse.Stage.Solve

/-! What a joined model keeps while it is used. Its columns are those of the model as it was written
and the cost-to-go column; every row of its program is a row as it was written, up to a random
right-hand side, or a link, or an initial value, or the row of a cut. The invariant is kept by every
operation of a pass, however it ends, because failing operations leave their state behind. -/

namespace Recourse

variable {α : Type}

/-- A model as it is written, before it is joined: its rows, states and samples refer to columns and
rows of its own, and nothing links it to other stages. -/
structure Stage.WellFormed (m : Stage α) : Prop where
  terms : ∀ r ∈ m.rows, ∀ t ∈ r.terms, t.1 < m.columns.length
  ids : (m.rows.map (·.id)).Nodup
  issued : ∀ r ∈ m.rows, r.id < m.issued
  random : ∀ e ∈ m.random, ∀ id ∈ e.rows, id < m.issued
  states : ∀ i ∈ m.states, i < m.columns.length
  noise : ∀ i ∈ m.noise, i < m.columns.length
  copies : ∀ i ∈ m.copies ++ m.noiseCopies, i < m.columns.length
  unlinked : m.links = [] ∧ m.noiseLinks = [] ∧ m.linked = false
  noCostToGo : m.costToGoColumn = none ∧ m.costToGo = none

/-- How a model is joined to its neighbours: the model as it was written, whether it is on the first
stage, the identifiers of its links, its cost-to-go column if it has one, whether its cuts depend on
the noise, and what is known of its cuts. -/
structure Junction (α : Type) where
  base : Stage α
  first : Bool
  links : List ℕ
  noiseLinks : List ℕ
  alpha : Option (Column α)
  lagged : Bool
  valid : Cut α → Prop

section Assignments

variable {as : List (ℕ × α)} {id : ℕ} {v w : α}

theorem rhsAfter_append (as' : List (ℕ × α)) :
    rhsAfter (as ++ as') id v = rhsAfter as' id (rhsAfter as id v) := by
  simp [rhsAfter]

theorem rhsAfter_of_not_mem (h : ∀ a ∈ as, a.1 ≠ id) : rhsAfter as id v = v := by
  induction as with
  | nil => rfl
  | cons a as ih =>
    rw [rhsAfter, List.foldl_cons, if_neg (h a (by simp))]
    exact ih fun b hb => h b (by simp [hb])

theorem rhsAfter_congr (h : id ∈ as.map (·.1)) : rhsAfter as id v = rhsAfter as id w := by
  induction as generalizing v w with
  | nil => simp at h
  | cons a as ih =>
    by_cases ha : a.1 = id
    · simp [rhsAfter, ha]
    · have hrest : id ∈ as.map (·.1) := by simpa [Ne.symm ha] using h
      simpa [rhsAfter, ha] using ih hrest

/-- What is assigned to different rows arrives where it is meant to. -/
theorem rhsAfter_zip {ids : List ℕ} {xs : List α} (hids : ids.Nodup) {i : ℕ}
    (hi : ids[i]? = some id) (hx : xs[i]? = some w) : rhsAfter (ids.zip xs) id v = w := by
  induction ids generalizing xs i v with
  | nil => simp at hi
  | cons k ids ih =>
    obtain ⟨x, xs, rfl⟩ : ∃ x xs', xs = x :: xs' := by
      cases xs with
      | nil => simp at hx
      | cons x xs => exact ⟨x, xs, rfl⟩
    rw [List.nodup_cons] at hids
    cases i with
    | zero =>
      obtain rfl : k = id := by simpa using hi
      obtain rfl : x = w := by simpa using hx
      have hrest : ∀ a ∈ ids.zip xs, a.1 ≠ k := fun a ha hk => hids.1 (hk ▸ (List.of_mem_zip ha).1)
      simpa [rhsAfter] using rhsAfter_of_not_mem (v := x) hrest
    | succ i => exact ih hids.2 hi hx

end Assignments

namespace Junction

def copies (j : Junction α) : List ℕ := j.base.copies ++ j.base.noiseCopies

def ids (j : Junction α) : List ℕ := j.links ++ j.noiseLinks

def randomRows (j : Junction α) : List ℕ := j.base.random.flatMap RandomRhs.rows

/-- Links are rows of their own, one for each copy; the first stage has none. -/
structure Sound (j : Junction α) : Prop where
  base : j.base.WellFormed
  nodup : j.ids.Nodup
  fresh : ∀ id ∈ j.ids, j.base.issued ≤ id
  links : j.first = false → j.links.length = j.base.copies.length ∧
    j.noiseLinks.length = j.base.noiseCopies.length
  first : j.first = true → j.links = [] ∧ j.noiseLinks = []

/-- The right-hand sides that a row as it was written may have at rest: its own one, or any if it is
random. -/
def Loose (j : Junction α) (r₀ : Row α) (v : α) : Prop := v = r₀.rhs ∨ r₀.id ∈ j.randomRows

/-- What the right-hand side of a row as it was written may be after assignments. -/
def After (j : Junction α) (as : List (ℕ × α)) (r₀ : Row α) (w : α) : Prop :=
  ∃ v, j.Loose r₀ v ∧ w = rhsAfter as r₀.id v

section

variable {j : Junction α} {as : List (ℕ × α)}

theorem Sound.ids_length_le (hj : j.Sound) : j.ids.length ≤ j.copies.length := by
  cases hfirst : j.first with
  | true => simp [ids, (hj.first hfirst).1, (hj.first hfirst).2]
  | false =>
    obtain ⟨hlinks, hnoise⟩ := hj.links hfirst
    simp [ids, copies, hlinks, hnoise]

theorem Sound.random_lt (hj : j.Sound) {id : ℕ} (h : id ∈ j.randomRows) : id < j.base.issued := by
  obtain ⟨e, he, hid⟩ := List.mem_flatMap.mp h
  exact hj.base.random e he id hid

/-- Assignments to random rows leave the links alone. -/
theorem Sound.rhsAfter_link (hj : j.Sound) (has : ∀ a ∈ as, a.1 ∈ j.randomRows) {i id : ℕ}
    (hi : j.ids[i]? = some id) (v : α) : rhsAfter as id v = v := by
  refine rhsAfter_of_not_mem fun a ha hid => ?_
  have h1 := hj.random_lt (has a ha)
  have h2 := hj.fresh id (List.mem_of_getElem? hi)
  omega

/-- Assignments to links leave the rows as they were written alone. -/
theorem Sound.rhsAfter_base (hj : j.Sound) (has : ∀ a ∈ as, a.1 ∈ j.ids) {r₀ : Row α}
    (hr₀ : r₀ ∈ j.base.rows) (v : α) : rhsAfter as r₀.id v = v := by
  refine rhsAfter_of_not_mem fun a ha hid => ?_
  have h1 := hj.base.issued r₀ hr₀
  have h2 := hj.fresh a.1 (has a ha)
  omega

theorem After.append {r₀ : Row α} {v : α} (h : j.After as r₀ v) (as' : List (ℕ × α)) :
    j.After (as ++ as') r₀ (rhsAfter as' r₀.id v) := by
  obtain ⟨v, hv, rfl⟩ := h
  exact ⟨v, hv, (rhsAfter_append as').symm⟩

theorem After.loose {r₀ : Row α} {w : α} (h : j.After as r₀ w)
    (has : ∀ a ∈ as, a.1 ∈ j.randomRows) :
    j.Loose r₀ w := by
  obtain ⟨v, hv, rfl⟩ := h
  by_cases hmem : r₀.id ∈ j.randomRows
  · exact .inr hmem
  · have hne : ∀ a ∈ as, a.1 ≠ r₀.id := by
      rintro a ha hid
      exact hmem (hid ▸ has a ha)
    rw [rhsAfter_of_not_mem hne]
    exact hv

end

variable [Field α] [LinearOrder α] [Numeral α]

/-- What a row of a joined program may be. `baseRhs` tells the right-hand sides of the rows as they
were written, and `linkRhs` those of the links by position. -/
inductive Admits (j : Junction α) (baseRhs : Row α → α → Prop) (linkRhs : ℕ → α → Prop)
    (r : Row α) : Prop
  | base (r₀ : Row α) (mem : r₀ ∈ j.base.rows) (same : r = { r₀ with rhs := r.rhs })
    (rhs : baseRhs r₀ r.rhs)
  | link (i column : ℕ) (id : j.ids[i]? = some r.id) (copy : j.copies[i]? = some column)
      (terms : r.terms = [(column, 1)]) (relation : r.relation = .equal) (rhs : linkRhs i r.rhs)
  | initial (fresh : r.id ∉ j.ids) (issued : j.base.issued ≤ r.id) (column : ℕ) (d : Datum α)
      (first : j.first = true) (mem : (column, d) ∈ j.base.copies.zip j.base.initial)
      (given : d.isNull = false) (value : d.asNumber = .ok r.rhs)
      (terms : r.terms = [(column, 1)]) (relation : r.relation = .equal)
  | cut (fresh : r.id ∉ j.ids) (issued : j.base.issued ≤ r.id) (c : Cut α) (valid : j.valid c)
      (column : j.alpha.isSome = true)
      (terms : r.terms = j.base.cutTerms j.lagged j.base.columns.length c)
      (relation : r.relation = .atLeast) (rhs : r.rhs = j.base.sense.orient c.intercept)

structure Joined (j : Junction α) (baseRhs : Row α → α → Prop) (linkRhs : ℕ → α → Prop)
    (m : Stage α) :
    Prop where
  frame : m = { j.base with
    columns := j.base.columns ++ j.alpha.toList
    rows := m.rows
    issued := m.issued
    links := j.links
    noiseLinks := j.noiseLinks
    linked := true
    costToGoColumn := j.alpha.map fun _ => j.base.columns.length
    costToGo := m.costToGo
    status := m.status
    solution := m.solution }
  rows : ∀ r ∈ m.rows, j.Admits baseRhs linkRhs r
  nodup : (m.rows.map (·.id)).Nodup
  issued : ∀ r ∈ m.rows, r.id < m.issued
  reserved : ∀ id ∈ j.ids, id < m.issued
  base : j.base.issued ≤ m.issued
  cuts : ∀ ctg, m.costToGo = some ctg → ctg.lagged = j.lagged ∧ ∀ c ∈ ctg.pool.cuts, j.valid c

variable {j : Junction α} {B B' : Row α → α → Prop} {L L' : ℕ → α → Prop} {m : Stage α} {r : Row α}

theorem Admits.mono (h : j.Admits B L r) (hB : ∀ r₀ ∈ j.base.rows, ∀ v, B r₀ v → B' r₀ v)
    (hL : ∀ i id, j.ids[i]? = some id → ∀ v, L i v → L' i v) : j.Admits B' L' r := by
  cases h with
  | base r₀ mem same rhs => exact .base r₀ mem same (hB r₀ mem _ rhs)
  | link i column id copy terms relation rhs =>
    exact .link i column id copy terms relation (hL i _ id _ rhs)
  | initial fresh issued column d first mem given value terms relation =>
    exact .initial fresh issued column d first mem given value terms relation
  | cut fresh issued c valid column terms relation rhs =>
    exact .cut fresh issued c valid column terms relation rhs

namespace Joined

theorem mono (h : j.Joined B L m) (hB : ∀ r₀ ∈ j.base.rows, ∀ v, B r₀ v → B' r₀ v)
    (hL : ∀ i id, j.ids[i]? = some id → ∀ v, L i v → L' i v) : j.Joined B' L' m :=
  { h with rows := fun r hr => (h.rows r hr).mono hB hL }

theorem withSolution (h : j.Joined B L m) (status : Status) (solution : Option (Solution α)) :
    j.Joined B L { m with status, solution } where
  frame := by rw [h.frame]
  rows := h.rows
  nodup := h.nodup
  issued := h.issued
  reserved := h.reserved
  base := h.base
  cuts := h.cuts

theorem assign (h : j.Joined B L m) {as : List (ℕ × α)}
    (has : ∀ a ∈ as, a.1 < j.base.issued ∨ a.1 ∈ j.ids)
    (hB : ∀ r₀ ∈ j.base.rows, ∀ v, B r₀ v → B' r₀ (rhsAfter as r₀.id v))
    (hL : ∀ i id, j.ids[i]? = some id → ∀ v, L i v → L' i (rhsAfter as id v)) :
    j.Joined B' L' { m with rows := m.rows.map (Row.assign as) } where
  frame := by rw [h.frame]
  rows := by
    intro r' hr'
    obtain ⟨r, hr, rfl⟩ := List.mem_map.mp hr'
    have hother (fresh : r.id ∉ j.ids) (issued : j.base.issued ≤ r.id) : r.assign as = r := by
      have hne : ∀ a ∈ as, a.1 ≠ r.id := by
        rintro a ha hid
        rcases has a ha with hlt | hmem
        · omega
        · exact fresh (hid ▸ hmem)
      rw [Row.assign, rhsAfter_of_not_mem hne]
    cases h.rows r hr with
    | base r₀ mem same rhs =>
      have hid : r.id = r₀.id := by rw [same]
      refine .base r₀ mem (congrArg (fun s : Row α => { s with rhs := (r.assign as).rhs }) same) ?_
      change B' r₀ (rhsAfter as r.id r.rhs)
      rw [hid]
      exact hB r₀ mem _ rhs
    | link i column id copy terms relation rhs =>
      exact .link i column id copy terms relation (hL i _ id _ rhs)
    | initial fresh issued column d first mem given value terms relation =>
      rw [hother fresh issued]
      exact .initial fresh issued column d first mem given value terms relation
    | cut fresh issued c valid column terms relation rhs =>
      rw [hother fresh issued]
      exact .cut fresh issued c valid column terms relation rhs
  nodup := by
    rw [List.map_map]
    exact h.nodup
  issued := by
    intro r' hr'
    obtain ⟨r, hr, rfl⟩ := List.mem_map.mp hr'
    exact h.issued r hr
  reserved := h.reserved
  base := h.base
  cuts := h.cuts

theorem addRow (h : j.Joined B L m) {r : Row α} (hid : r.id = m.issued) (hr : j.Admits B L r) :
    j.Joined B L { m with rows := m.rows ++ [r], issued := m.issued + 1 } where
  frame := by rw [h.frame]
  rows := by
    intro r' hr'
    rcases List.mem_append.mp hr' with hr' | hr'
    · exact h.rows r' hr'
    · rwa [List.mem_singleton.mp hr']
  nodup := by
    rw [List.map_append, List.nodup_append]
    refine ⟨h.nodup, by simp, ?_⟩
    rintro id hmem id' hid' rfl
    obtain ⟨r', hr', rfl⟩ := List.mem_map.mp hmem
    have := h.issued r' hr'
    simp [hid] at hid'
    omega
  issued := by
    intro r' hr'
    rcases List.mem_append.mp hr' with hr' | hr'
    · exact (h.issued r' hr').trans (Nat.lt_succ_self _)
    · rw [List.mem_singleton.mp hr', hid]
      exact Nat.lt_succ_self _
  reserved := fun id hmem => (h.reserved id hmem).trans (Nat.lt_succ_self _)
  base := h.base.trans (Nat.le_succ _)
  cuts := h.cuts

theorem filterRows (h : j.Joined B L m) (keep : Row α → Bool) :
    j.Joined B L { m with rows := m.rows.filter keep } where
  frame := by rw [h.frame]
  rows := fun r hr => h.rows r (List.mem_filter.mp hr).1
  nodup := h.nodup.sublist (List.filter_sublist.map _)
  issued := fun r hr => h.issued r (List.mem_filter.mp hr).1
  reserved := h.reserved
  base := h.base
  cuts := h.cuts

theorem withCostToGo (h : j.Joined B L m) {ctg : Option (CostToGo α)}
    (hctg : ∀ c, ctg = some c → c.lagged = j.lagged ∧ ∀ cut ∈ c.pool.cuts, j.valid cut) :
    j.Joined B L { m with costToGo := ctg } where
  frame := by rw [h.frame]
  rows := h.rows
  nodup := h.nodup
  issued := h.issued
  reserved := h.reserved
  base := h.base
  cuts := hctg

end Joined

end Junction

end Recourse
