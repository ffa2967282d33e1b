import Recourse.Proofs.Run
import Recourse.Cut.Pool

/-! How the cuts of a pool are numbered. Numbers grow along the stored cuts and are never given
twice, and the version of a pool tells whether its cuts are still the same. -/

namespace Recourse

variable {α : Type}

def Cut.number (c : Cut α) : ℕ := c.index.getD 0

namespace Pool

/-- The stored cuts bear growing numbers that were all given out. -/
structure Numbered (p : Pool α) : Prop where
  index : ∀ c ∈ p.cuts, c.index = some c.number
  growing : (p.cuts.map Cut.number).Pairwise (· < ·)
  issued : ∀ c ∈ p.cuts, c.number < p.issued

theorem Numbered.eq_of_number {p : Pool α} (h : p.Numbered) {c d : Cut α} (hc : c ∈ p.cuts)
    (hd : d ∈ p.cuts) (hcd : c.number = d.number) : c = d :=
  List.inj_on_of_nodup_map (h.growing.imp fun hlt => hlt.ne) hc hd hcd

/-- The same pool without its cuts, as if none had arrived. -/
def bare (p : Pool α) : Pool α := { p with cuts := [], issued := 0, pruned := 0, version := 0 }

/-- What arrivals and removals leave: some of the cuts that were there, and new ones under new
numbers. The version is a later one unless the cuts are the same. -/
structure Grows (p q : Pool α) : Prop where
  bare : q.bare = p.bare
  numbered : p.Numbered → q.Numbered
  cuts : ∀ c ∈ q.cuts, c ∈ p.cuts ∨ p.issued ≤ c.number
  issued : p.issued ≤ q.issued
  version : p.version < q.version ∨ q.version = p.version ∧ q.cuts = p.cuts

theorem Grows.refl (p : Pool α) : Grows p p :=
  ⟨rfl, id, fun _ hc => .inl hc, le_rfl, .inr ⟨rfl, rfl⟩⟩

private theorem grows_of_sublist {p : Pool α} {cuts : List (Cut α)} (hcuts : cuts.Sublist p.cuts)
    (c : Cut α) (pruned : ℕ) :
    Grows p { p with
      cuts := cuts ++ [{ c with index := some p.issued }]
      issued := p.issued + 1, pruned, version := p.version + 1 } where
  bare := rfl
  numbered := fun h => by
    refine ⟨fun d hd => ?_, ?_, fun d hd => ?_⟩
    · rcases List.mem_append.mp hd with hd | hd
      · exact h.index d (hcuts.subset hd)
      · rw [List.mem_singleton.mp hd]
        rfl
    · rw [List.map_append, List.pairwise_append]
      refine ⟨h.growing.sublist (hcuts.map _), by simp, fun i hi j hj => ?_⟩
      obtain ⟨d, hd, rfl⟩ := List.mem_map.mp hi
      obtain rfl := List.mem_singleton.mp hj
      exact h.issued d (hcuts.subset hd)
    · rcases List.mem_append.mp hd with hd | hd
      · exact (h.issued d (hcuts.subset hd)).trans (Nat.lt_succ_self _)
      · rw [List.mem_singleton.mp hd]
        exact Nat.lt_succ_self _
  cuts := fun d hd => by
    rcases List.mem_append.mp hd with hd | hd
    · exact .inl (hcuts.subset hd)
    · rw [List.mem_singleton.mp hd]
      exact .inr le_rfl
  issued := Nat.le_succ _
  version := .inl (Nat.lt_succ_self _)

private theorem grows_of_issued (p : Pool α) (pruned : ℕ) :
    Grows p { p with issued := p.issued + 1, pruned } where
  bare := rfl
  numbered := fun h => ⟨h.index, h.growing, fun c hc => (h.issued c hc).trans (Nat.lt_succ_self _)⟩
  cuts := fun _ hc => .inl hc
  issued := Nat.le_succ _
  version := .inr ⟨rfl, rfl⟩

variable [Scalar α]

/-- What screening leaves are some of the stored cuts and the new one. -/
theorem sublist_of_screen {p : Pool α} {c : Cut α} {cuts : List (Cut α)}
    (h : p.screen c = .ok (some cuts)) :
    ∃ survivors : List (Cut α), survivors.Sublist p.cuts ∧ cuts = survivors ++ [c] := by
  obtain ⟨dominated, -, h⟩ := ok_of_bind h
  cases dominated with
  | true => cases h
  | false =>
    obtain ⟨survivors, hsurvivors, h⟩ := ok_of_bind h
    cases h
    exact ⟨survivors, sublist_of_filterM hsurvivors, rfl⟩

theorem grows_add (c : Cut α) (p : Pool α) : Grows p ((Pool.add c).on p).2 := by
  change Grows p (Pool.add c p).2
  unfold Pool.add
  dsimp only
  split_ifs
  · split
    · exact grows_of_issued p p.pruned
    · exact grows_of_issued p (p.pruned + 1)
    · next cuts hscreen =>
      obtain ⟨survivors, hsurvivors, rfl⟩ := sublist_of_screen hscreen
      exact grows_of_sublist (show survivors.Sublist p.cuts from hsurvivors) c _
  · exact grows_of_sublist (List.Sublist.refl _) c p.pruned

theorem grows_prune (p : Pool α) : Grows p (Pool.prune.on p).2 := by
  change Grows p (Pool.prune p).2
  unfold Pool.prune
  split
  · exact .refl p
  · next kept hkept =>
    dsimp only
    split_ifs
    · exact .refl p
    · have hsub : kept.Sublist p.cuts := by
        obtain ⟨numbered, hnumbered, h⟩ := ok_of_bind hkept
        cases h
        have h := (sublist_of_filterM hnumbered).map (·.1)
        rwa [List.zipIdx_map_fst] at h
      exact
        { bare := rfl
          numbered := fun h =>
          ⟨fun c hc => h.index c (hsub.subset hc), h.growing.sublist (hsub.map _),
            fun c hc => h.issued c (hsub.subset hc)⟩
          cuts := fun c hc => .inl (hsub.subset hc)
          issued := le_rfl
          version := .inl (Nat.lt_succ_self _) }

end Pool

end Recourse
