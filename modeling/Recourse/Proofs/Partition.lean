import Recourse.Decimal.Read
import Recourse.Multistage.Jobs
import Recourse.Proofs.Decimal.Division
import Recourse.Proofs.Schedule
import Recourse.Random.Twister

/-! Jobs as a partition. The size of the chunks comes from a quotient of floating-point numbers,
which for numbers with no more than fifty-three binary digits has the right whole part; the chunks
then are all jobs in order, none of them is empty, and each walks with a source from seeds of its
own. -/

namespace Recourse

open Multistage

variable {γ α : Type}

/-! ### Seeds -/

namespace Multistage

def chunkSeeds (seed : ℕ) : List ℤ → List ℕ
  | [] => [seed]
  | j :: _ => [seed, j.toNat]

theorem chunkSource_cons [Source γ α] {seed : ℕ} {j : ℤ} {jobs : List ℤ} (hj : 0 ≤ j)
    (hlt : j < 2 ^ 32) :
    (chunkSource seed (j :: jobs) : Except (Fault α) γ) = .ok
    (Source.ofSeeds (chunkSeeds seed (j :: jobs))) :=
  if_pos ⟨hj, hlt⟩

/-- Chunks that have no job in common have different seeds. -/
theorem nodup_chunkSeeds {chunks : List (List ℤ)} (hnodup : chunks.flatten.Nodup)
    (hne : ∀ jobs ∈ chunks, jobs ≠ []) (hnonneg : ∀ j ∈ chunks.flatten, 0 ≤ j) (seed : ℕ) :
    (chunks.map (chunkSeeds seed)).Nodup := by
  obtain ⟨-, hpairwise⟩ := List.nodup_flatten.mp hnodup
  rw [List.Nodup, List.pairwise_map]
  apply hpairwise.imp_of_mem
  intro jobs jobs' hjobs hjobs' hdisjoint heq
  obtain ⟨j, rest, rfl⟩ := List.exists_cons_of_ne_nil (hne jobs hjobs)
  obtain ⟨j', rest', rfl⟩ := List.exists_cons_of_ne_nil (hne jobs' hjobs')
  have hj : 0 ≤ j := hnonneg j (List.mem_flatten_of_mem hjobs List.mem_cons_self)
  have hj' : 0 ≤ j' := hnonneg j' (List.mem_flatten_of_mem hjobs' List.mem_cons_self)
  have htoNat : j.toNat = j'.toNat := by simpa [chunkSeeds] using heq
  obtain rfl : j = j' := by omega
  exact hdisjoint List.mem_cons_self List.mem_cons_self

end Multistage

namespace Schedule

variable {n p : ℤ}

/-! ### Quotients -/

/-- The size of all chunks but the last: the quotient of the two numbers, rounded, without its
fraction, and one more where the quotient is not whole. -/
def chunkSize (n p : ℤ) : Except (Fault Float) ℤ := do
  let q ← truncated ((← Datum.ofWhole n) / (← Datum.ofWhole p))
  return if Int.fmod n p = 0 then q else q + 1

/-- Below the limit, the rounding of a quotient does not show in its whole part. -/
theorem quotient_eq_truncated_div (hn : 0 < n) (hp : 0 < p) (hn' : n < 2 ^ 53) (hp' : p < 2 ^ 53) :
    quotient (α := Float) n p = (do truncated ((← Datum.ofWhole n) / (← Datum.ofWhole p))) := by
  obtain ⟨m, rfl⟩ := Int.eq_ofNat_of_zero_le hn.le
  obtain ⟨k, rfl⟩ := Int.eq_ofNat_of_zero_le hp.le
  obtain ⟨x, y, hx, hy, hquotient⟩ := Decimal.truncate?_div (n := m) (p := k) (by omega) (by omega)
    (by omega) (by omega)
  have hdividend : Datum.ofWhole (m : ℤ) = (.ok x : Except (Fault Float) Float) := by
    rw [Datum.ofWhole, show Numeral.ofInt? (m : ℤ) = some x from hx]
  have hdivisor : Datum.ofWhole (k : ℤ) = (.ok y : Except (Fault Float) Float) := by
    rw [Datum.ofWhole, show Numeral.ofInt? (k : ℤ) = some y from hy]
  have hwhole : truncated (x / y) = .ok ((m : ℤ) / k) := by
    rw [truncated, show Numeral.truncate? (x / y) = some ((m : ℤ) / k) from hquotient]
  have hlimit : (m : ℤ).natAbs < exactLimit := by
    change _ < 2 ^ 53
    omega
  rw [quotient_of_lt hlimit, hdividend, hdivisor, Int.tdiv_eq_ediv_of_nonneg hn.le]
  exact hwhole.symm

theorem allocate_eq_split (hn : 0 < n) (hp : 0 < p) (hn' : n < 2 ^ 53) (hp' : p < 2 ^ 53)
    (hone : n - p ≠ 1) :
    allocate n p = chunkSize n p >>= split n := by
  rw [allocate_of_ne hone hp.ne', quotient_eq_truncated_div hn hp hn' hp']
  simp only [chunkSize, bind_assoc, pure_bind]

/-! ### Chunks -/

theorem span_zero (n : ℤ) : span 0 n = (List.range n.toNat).map fun (i : ℕ) => (i : ℤ) := by
  simp [span]

theorem nodup_span (n : ℤ) : (span 0 n).Nodup := by
  rw [span_zero]
  exact List.nodup_range.map Nat.cast_injective

theorem nonneg_of_mem_span {j : ℤ} (hj : j ∈ span 0 n) : 0 ≤ j := by
  rw [span_zero] at hj
  obtain ⟨i, -, rfl⟩ := List.mem_map.mp hj
  exact Int.natCast_nonneg i

/-- Among no more workers than jobs, the jobs are split into chunks that put together are `0, …, n -
1` in order. No chunk is empty, no two have the same seeds, and there are no more of them than
workers; unless there is one job more than workers, their size is the rounded quotient without its
fraction, or one more. -/
theorem allocateData_partition [Source γ Float] (hp : 1 ≤ p) (hpn : p ≤ n) (hn : n < 2 ^ 53) :
    ∃ chunks, allocateData (α := Float) (.int n) (.int p) = .ok chunks ∧
      (n - p ≠ 1 → (chunkSize n p >>= split n) = .ok chunks) ∧
      chunks.flatten = (List.range n.toNat).map (fun (i : ℕ) => (i : ℤ)) ∧
      (∀ jobs ∈ chunks, ∃ j rest, jobs = j :: rest ∧ ∀ seed, j < 2 ^ 32 →
        (chunkSource seed jobs : Except (Fault Float) γ) = .ok
        (Source.ofSeeds (chunkSeeds seed jobs))) ∧
      (∀ seed, (chunks.map (chunkSeeds seed)).Nodup) ∧
      (chunks.length : ℤ) ≤ p := by
  have hlimit : n.natAbs < exactLimit := by
    change _ < 2 ^ 53
    omega
  obtain ⟨chunks, hallocate, hflatten, hne, hlength⟩ := allocate_spec (α := Float) hp hpn hlimit
  have hnonneg : ∀ j ∈ chunks.flatten, 0 ≤ j := fun j hj => nonneg_of_mem_span (hflatten ▸ hj)
  refine ⟨chunks, hallocate, fun hone => ?_, hflatten.trans (span_zero n), fun jobs hjobs => ?_,
    nodup_chunkSeeds (hflatten ▸ nodup_span n) hne hnonneg, hlength⟩
  · rw [← allocate_eq_split (by omega) (by omega) hn (by omega) hone]
    exact hallocate
  · obtain ⟨j, rest, rfl⟩ := List.exists_cons_of_ne_nil (hne jobs hjobs)
    have hj : 0 ≤ j := hnonneg j (List.mem_flatten_of_mem hjobs List.mem_cons_self)
    exact ⟨j, rest, rfl, fun seed hlt => chunkSource_cons hj hlt⟩

/-- Eleven jobs for seven workers: six chunks, the last of them shorter. -/
theorem allocateData_partition_eleven :
    ∃ chunks, chunks = [[0, 1], [2, 3], [4, 5], [6, 7], [8, 9], [10]] ∧
      allocateData (α := Float) (.int 11) (.int 7) = .ok chunks ∧
      (chunkSize 11 7 >>= split 11) = .ok chunks ∧
      chunks.map (chunkSeeds 5) = [[5, 0], [5, 2], [5, 4], [5, 6], [5, 8], [5, 10]] ∧
      (chunks.map (chunkSeeds 5)).Nodup := by
  obtain ⟨chunks, hallocate, hsize, -, -, hseeds, -⟩ :=
    allocateData_partition (γ := Twister) (show 1 ≤ (7 : ℤ) by norm_num)
      (show (7 : ℤ) ≤ 11 by norm_num) (by norm_num)
  have hchunks : allocateData (α := Float) (.int 11) (.int 7) =
      .ok [[0, 1], [2, 3], [4, 5], [6, 7], [8, 9], [10]] := rfl
  obtain rfl := Except.ok.inj (hallocate.symm.trans hchunks)
  exact ⟨_, rfl, hallocate, hsize (by norm_num), rfl, hseeds 5⟩

end Schedule

end Recourse
