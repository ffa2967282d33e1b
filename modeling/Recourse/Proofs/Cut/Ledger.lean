import Recourse.Proofs.Cut.Numbering

/-! The books of a pool. Each cut that arrives takes the next number, and then it is stored, dropped
or refused. So the counters add up whatever is asked of a pool, the stored cuts are some of those
that arrived, in their order, and the version tells whether they are still the same. -/

namespace Recourse.Pool

variable {α : Type}

inductive Call (α : Type) where
  | add (c : Cut α)
  | prune

def Call.arrival? : Call α → Option (Cut α)
  | .add c => some c
  | .prune => none

def arrivals (calls : List (Call α)) : List (Cut α) := calls.filterMap Call.arrival?

def inOrder (arrived : List (Cut α)) : List (Cut α) :=
  arrived.mapIdx fun i c => { c with index := some i }

section Order

variable {calls : List (Call α)} {arrived stored : List (Cut α)}

@[simp] theorem arrivals_add (calls : List (Call α)) (c : Cut α) :
    arrivals (calls ++ [.add c]) = arrivals calls ++ [c] := by
  simp [arrivals, Call.arrival?]

@[simp] theorem arrivals_prune (calls : List (Call α)) :
    arrivals (calls ++ [.prune]) = arrivals calls := by
  simp [arrivals, Call.arrival?]

theorem inOrder_concat (arrived : List (Cut α)) (c : Cut α) :
    inOrder (arrived ++ [c]) = inOrder arrived ++ [{ c with index := some arrived.length }] := by
  simp [inOrder, List.mapIdx_append]

theorem exists_of_mem_inOrder {c : Cut α} (h : c ∈ inOrder arrived) :
    c.index = some c.number ∧ c.number < arrived.length := by
  obtain ⟨i, hi, rfl⟩ := List.mem_mapIdx.mp h
  exact ⟨rfl, hi⟩

theorem growing_inOrder (arrived : List (Cut α)) :
    ((inOrder arrived).map Cut.number).Pairwise (· < ·) := by
  have hnumbers : (inOrder arrived).map Cut.number = List.range arrived.length := by
    exact List.ext_getElem (by simp [inOrder]) fun i hi hi' => by simp [inOrder, Cut.number]
  rw [hnumbers]
  exact List.pairwise_lt_range

end Order

variable [Scalar α]

def Call.run : Call α → Run α (Pool α) Unit
  | .add c => do let _ ← Pool.add c
  | .prune => do let _ ← Pool.prune

def Call.after (call : Call α) (p : Pool α) : Pool α := (call.run.on p).2

def serve (calls : List (Call α)) (p : Pool α) : Pool α :=
  calls.foldl (fun p call => call.after p) p

/-- Whether a call is the arrival of a cut that is refused. -/
def Call.isRefused (p : Pool α) : Call α → Bool
  | .add c => !((Pool.add c).on p).1.isOk
  | .prune => false

/-- How many of the cuts that arrive are refused. -/
def refusals : List (Call α) → Pool α → ℕ
  | [], _ => 0
  | call :: calls, p => (call.isRefused p).toNat + refusals calls (call.after p)

@[simp] theorem serve_concat (calls : List (Call α)) (call : Call α) (p : Pool α) :
    serve (calls ++ [call]) p = call.after (serve calls p) := by
  simp [serve]

theorem refusals_concat (calls : List (Call α)) (call : Call α) (p : Pool α) :
    refusals (calls ++ [call]) p = refusals calls p + (call.isRefused (serve calls p)).toNat := by
  induction calls generalizing p with
  | nil => simp [refusals, serve]
  | cons first calls ih =>
    rw [List.cons_append, refusals, ih, refusals, Nat.add_assoc]
    rfl

theorem Call.after_add (c : Cut α) (p : Pool α) : (Call.add c).after p = ((Pool.add c).on p).2 := by
  rcases hrun : (Pool.add c).on p with ⟨e | stored, p'⟩
  · exact congrArg Prod.snd (Run.bind_error _ hrun)
  · exact congrArg Prod.snd (Run.bind_ok _ hrun)

theorem Call.after_prune (p : Pool α) : Call.prune.after p = (Pool.prune.on p).2 := by
  rcases hrun : Pool.prune.on p with ⟨e | removed, p'⟩
  · exact congrArg Prod.snd (Run.bind_error _ hrun)
  · exact congrArg Prod.snd (Run.bind_ok _ hrun)

/-! ### What a call can do -/

/-- A cut that arrives is refused, dropped, or stored behind some of those that were there. -/
theorem add_cases (c : Cut α) (p : Pool α) :
    (∃ e, (add c).on p = (.error e, { p with issued := p.issued + 1 })) ∨
    (add c).on p = (.ok none, { p with issued := p.issued + 1, pruned := p.pruned + 1 }) ∨
    ∃ kept : List (Cut α), kept.Sublist p.cuts ∧
      (add c).on p = (.ok (some { c with index := some p.issued }), { p with
        cuts := kept ++ [{ c with index := some p.issued }]
        issued := p.issued + 1
        pruned := p.pruned + (p.cuts.length - kept.length)
        version := p.version + 1 }) := by
  simp only [Run.on, add]
  split_ifs
  · split
    · next e _ => exact .inl ⟨e, rfl⟩
    · exact .inr (.inl rfl)
    · next cuts hscreen =>
      obtain ⟨kept, hkept, rfl⟩ := sublist_of_screen hscreen
      refine .inr (.inr ⟨kept, hkept, ?_⟩)
      simp only [List.length_append, List.length_singleton, Nat.add_sub_add_right]
  · refine .inr (.inr ⟨p.cuts, .refl _, ?_⟩)
    simp only [Nat.sub_self, Nat.add_zero]

theorem sublist_of_undominated {p : Pool α} {kept : List (Cut α)} (h : p.undominated = .ok kept) :
    kept.Sublist p.cuts := by
  obtain ⟨numbered, hnumbered, h⟩ := ok_of_bind h
  cases h
  have hsub := (sublist_of_filterM hnumbered).map (·.1)
  rwa [List.zipIdx_map_fst] at hsub

/-- A pool that is pruned stays as it is, or fewer of its cuts are left. -/
theorem prune_cases (p : Pool α) :
    (prune.on p).2 = p ∨ ∃ kept : List (Cut α), kept.Sublist p.cuts ∧ kept.length < p.cuts.length ∧
      (prune.on p).2 = { p with
        cuts := kept, pruned := p.pruned + (p.cuts.length - kept.length)
        version := p.version + 1 } := by
  simp only [Run.on, prune]
  split
  · exact .inl rfl
  · next kept hkept =>
    have hsub := sublist_of_undominated hkept
    split_ifs with hremoved
    · exact .inl rfl
    · exact .inr ⟨kept, hsub, by omega, rfl⟩

theorem Call.grows (call : Call α) (p : Pool α) : p.Grows (call.after p) := by
  cases call with
  | add c => exact Call.after_add c p ▸ grows_add c p
  | prune => exact Call.after_prune p ▸ grows_prune p

/-! ### The books -/

/-- The books of a pool after some calls, in which a number of cuts were refused. -/
structure Books (calls : List (Call α)) (refused : ℕ) (p : Pool α) : Prop where
  issued : p.issued = (arrivals calls).length
  balance : p.cuts.length + p.pruned + refused = p.issued
  stored : p.cuts.Sublist (inOrder (arrivals calls))

variable {calls : List (Call α)} {refused : ℕ} {p : Pool α}

omit [Scalar α] in
theorem Books.numbered (h : Books calls refused p) : p.Numbered where
  index := fun _ hc => (exists_of_mem_inOrder (h.stored.subset hc)).1
  growing := (growing_inOrder _).sublist (h.stored.map _)
  issued := fun _ hc => h.issued ▸ (exists_of_mem_inOrder (h.stored.subset hc)).2

theorem Books.step (h : Books calls refused p) (call : Call α) :
    Books (calls ++ [call]) (refused + (call.isRefused p).toNat) (call.after p) := by
  have hbalance := h.balance
  cases call with
  | add c =>
    have hissued : p.issued + 1 = (arrivals (calls ++ [.add c])).length := by
      rw [arrivals_add, List.length_append, List.length_singleton, h.issued]
    have hold : (inOrder (arrivals calls)).Sublist (inOrder (arrivals (calls ++ [.add c]))) := by
      rw [arrivals_add, inOrder_concat]
      exact List.sublist_append_left _ _
    rw [Call.after_add, Call.isRefused]
    rcases add_cases c p with ⟨e, hrun⟩ | hrun | ⟨kept, hkept, hrun⟩ <;> rw [hrun]
    · exact ⟨hissued, congrArg (· + 1) hbalance, h.stored.trans hold⟩
    · refine ⟨hissued, ?_, h.stored.trans hold⟩
      change p.cuts.length + (p.pruned + 1) + (refused + 0) = p.issued + 1
      omega
    · refine ⟨hissued, ?_, ?_⟩
      · have hle := hkept.length_le
        change (kept ++ [_]).length + (p.pruned + (p.cuts.length - kept.length)) + (refused + 0) =
          p.issued + 1
        rw [List.length_append, List.length_singleton]
        omega
      · rw [arrivals_add, inOrder_concat, ← h.issued]
        exact (hkept.trans h.stored).append (.refl _)
  | prune =>
    rw [Call.after_prune]
    rcases prune_cases p with hrun | ⟨kept, hkept, hlt, hrun⟩ <;> rw [hrun]
    · exact ⟨by rw [arrivals_prune, h.issued], hbalance, by rw [arrivals_prune]; exact h.stored⟩
    · refine ⟨by rw [arrivals_prune, h.issued], ?_, by
        rw [arrivals_prune]; exact hkept.trans h.stored⟩
      change kept.length + (p.pruned + (p.cuts.length - kept.length)) + (refused + 0) = p.issued
      omega

theorem books_serve (sense : Sense) (box : Box α) (pruning : Bool) (calls : List (Call α)) :
    Books calls (refusals calls (empty sense box pruning))
      (serve calls (empty sense box pruning)) := by
  induction calls using List.reverseRecOn with
  | nil => exact ⟨rfl, rfl, .slnil⟩
  | append_singleton calls call ih =>
    rw [refusals_concat, serve_concat]
    exact ih.step call

/-- A call after which the version is another one has changed the stored cuts, and only such a call
has. -/
theorem Numbered.version_ne_iff (h : p.Numbered) (call : Call α) :
    (call.after p).version ≠ p.version ↔ (call.after p).cuts ≠ p.cuts := by
  constructor
  · intro hversion hcuts
    cases call with
    | add c =>
      rw [Call.after_add] at hversion hcuts
      rcases add_cases c p with ⟨e, hrun⟩ | hrun | ⟨kept, hkept, hrun⟩ <;>
        rw [hrun] at hversion hcuts
      · exact hversion rfl
      · exact hversion rfl
      · -- the number of the new cut was not given out before
        have hnew : ({ c with index := some p.issued } : Cut α) ∈ p.cuts :=
          hcuts ▸ List.mem_append_right kept (List.mem_singleton_self _)
        exact absurd (h.issued _ hnew) (lt_irrefl p.issued)
    | prune =>
      rw [Call.after_prune] at hversion hcuts
      rcases prune_cases p with hrun | ⟨kept, -, hlt, hrun⟩ <;> rw [hrun] at hversion hcuts
      · exact hversion rfl
      · exact absurd (congrArg List.length hcuts) hlt.ne
  · intro hcuts hversion
    rcases (call.grows p).version with hlt | ⟨-, hsame⟩
    · exact absurd hversion hlt.ne'
    · exact hcuts hsame

/-- Whatever is asked of a new pool: as many numbers are given out as cuts arrive, and each of these
is stored, was dropped or removed, or was refused. The stored cuts are some of those that arrived,
in their order and under growing numbers; the answer to an arrival bears the number of cuts that
came before. The version changes with a call exactly if the stored cuts do, and then it grows. -/
theorem serve_bookkeeping (sense : Sense) (box : Box α) (pruning : Bool) (calls : List (Call α)) :
    let start := empty sense box pruning
    let p := serve calls start
    p.issued = (arrivals calls).length ∧
    p.cuts.length + p.pruned + refusals calls start = p.issued ∧
    p.cuts.Sublist (inOrder (arrivals calls)) ∧
    (p.cuts.map Cut.number).Pairwise (· < ·) ∧ (p.cuts.map Cut.number).Nodup ∧
    (∀ c ∈ p.cuts, c.index = some c.number ∧ c.number < p.issued) ∧
    (∀ c d, ((add c).on p).1 = .ok (some d) →
    d = { c with index := some (arrivals calls).length }) ∧
    ∀ call : Call α, ((call.after p).version ≠ p.version ↔ (call.after p).cuts ≠ p.cuts) ∧
      ((call.after p).version ≠ p.version → p.version < (call.after p).version) := by
  intro start p
  have hbooks : Books calls (refusals calls start) p := books_serve sense box pruning calls
  have hnumbered := hbooks.numbered
  refine ⟨hbooks.issued, hbooks.balance, hbooks.stored, hnumbered.growing,
    hnumbered.growing.imp fun hlt => hlt.ne,
    fun c hc => ⟨hnumbered.index c hc, hnumbered.issued c hc⟩, fun c d hd => ?_, fun call => ?_⟩
  · rw [← hbooks.issued]
    rcases add_cases c p with ⟨e, hrun⟩ | hrun | ⟨kept, -, hrun⟩ <;> rw [hrun] at hd <;> cases hd
    rfl
  · refine ⟨hnumbered.version_ne_iff call, fun hversion => ?_⟩
    rcases (call.grows p).version with hlt | ⟨hsame, -⟩
    · exact hlt
    · exact absurd hsame hversion

end Recourse.Pool
