import Mathlib.Tactic
import Recourse.Proofs.Run
import Recourse.Schedule

/-! How jobs are split. Put together, the chunks are all jobs in order, none of them is empty, and
there are no more of them than workers. -/

namespace Recourse.Schedule

variable {α : Type}

/-! ### Spans -/

@[simp] theorem span_self (a : ℤ) : span a a = [] := by simp [span]

theorem span_append {a b c : ℤ} (hab : a ≤ b) (hbc : b ≤ c) : span a b ++ span b c = span a c := by
  obtain ⟨m, rfl⟩ := Int.le.dest hab
  obtain ⟨n, rfl⟩ := Int.le.dest hbc
  have hm : (a + m - a).toNat = m := by omega
  have hn : (a + m + n - (a + m)).toNat = n := by omega
  have hmn : (a + m + n - a).toNat = m + n := by omega
  rw [span, span, span, hm, hn, hmn, List.range_add, List.map_append, List.map_map]
  congr 2
  funext i
  push_cast [Function.comp_apply]
  ring

theorem span_ne_nil {a b : ℤ} (h : a < b) : span a b ≠ [] := by
  have hpos : (b - a).toNat ≠ 0 := by omega
  simpa [span] using hpos

theorem flatten_spans {a : ℤ} {bounds : List ℤ} (h : (a :: bounds).IsChain (· ≤ ·)) :
    (spans (a :: bounds)).flatten = span a (bounds.getLastD a) ∧ a ≤ bounds.getLastD a := by
  induction bounds generalizing a with
  | nil => simp [spans]
  | cons b bounds ih =>
    obtain ⟨hab, hrest⟩ := List.isChain_cons_cons.mp h
    obtain ⟨hflatten, hle⟩ := ih hrest
    rw [spans, List.flatten_cons, hflatten, List.getLastD_cons]
    exact ⟨span_append hab hle, hab.trans hle⟩

theorem ne_nil_of_mem_spans {bounds : List ℤ} (h : bounds.IsChain (· < ·)) {jobs : List ℤ}
    (hjobs : jobs ∈ spans bounds) :
    jobs ≠ [] := by
  induction bounds with
  | nil => simp [spans] at hjobs
  | cons a bounds ih =>
    cases bounds with
    | nil => simp [spans] at hjobs
    | cons b bounds =>
      obtain ⟨hab, hrest⟩ := List.isChain_cons_cons.mp h
      rcases List.mem_cons.mp hjobs with rfl | hjobs
      · exact span_ne_nil hab
      · exact ih hrest hjobs

theorem length_spans (bounds : List ℤ) : (spans bounds).length = bounds.length - 1 := by
  induction bounds with
  | nil => rfl
  | cons a bounds ih =>
    cases bounds with
    | nil => rfl
    | cons b bounds => simpa [spans] using ih

/-! ### Chunks of one size -/

def chunkCount (n chunk : ℤ) : ℕ := ((n + chunk - 1) / chunk).toNat

theorem starts_eq {n chunk : ℤ} (hchunk : 0 < chunk) :
    starts n chunk = (List.range (chunkCount n chunk)).map fun (i : ℕ) => (i : ℤ) * chunk := by
  rw [starts, if_pos hchunk, chunkCount]

theorem lt_of_lt_chunkCount {n chunk : ℤ} (hchunk : 0 < chunk) {i : ℕ}
    (hi : i < chunkCount n chunk) :
    i * chunk < n := by
  have hle : (i : ℤ) + 1 ≤ (n + chunk - 1) / chunk := by
    unfold chunkCount at hi
    omega
  have hmul := (Int.le_ediv_iff_mul_le hchunk).mp hle
  linarith [add_mul (i : ℤ) 1 chunk]

theorem chunkCount_pos {n chunk : ℤ} (hn : 0 < n) (hchunk : 0 < chunk) :
    0 < chunkCount n chunk := by
  have hle : 1 ≤ (n + chunk - 1) / chunk := (Int.le_ediv_iff_mul_le hchunk).mpr (by linarith)
  unfold chunkCount
  omega

/-- The bounds of chunks of one size grow from zero to the number of jobs. -/
theorem bounds_isChain {n chunk : ℤ} (hchunk : 0 < chunk) :
    (starts n chunk ++ [n]).IsChain (· < ·) := by
  rw [starts_eq hchunk, List.isChain_append]
  refine ⟨?_, List.isChain_singleton n, ?_⟩
  · rw [List.isChain_map]
    refine List.pairwise_lt_range.isChain.imp fun i j hij => ?_
    exact mul_lt_mul_of_pos_right (Int.ofNat_lt.mpr hij) hchunk
  · intro a ha b hb
    obtain rfl : n = b := by simpa using hb
    obtain ⟨i, hi, rfl⟩ := List.mem_map.mp (List.mem_of_mem_getLast? ha)
    exact lt_of_lt_chunkCount hchunk (List.mem_range.mp hi)

/-- Chunks of one size are all jobs in order, and none of them is empty. -/
theorem split_spec {n chunk : ℤ} (hn : 0 < n) (hchunk : 0 < chunk) :
    ∃ chunks, split (α := α) n chunk = .ok chunks ∧ chunks.flatten = span 0 n ∧
      (∀ jobs ∈ chunks, jobs ≠ []) ∧
      chunks.length = chunkCount n chunk := by
  have hne : chunk ≠ 0 := hchunk.ne'
  refine ⟨_, if_neg hne, ?_, fun jobs => ne_nil_of_mem_spans (bounds_isChain hchunk), ?_⟩
  · obtain ⟨m, hm⟩ := Nat.exists_eq_succ_of_ne_zero (chunkCount_pos hn hchunk).ne'
    have hbounds := (bounds_isChain (n := n) hchunk).imp fun _ _ h => le_of_lt h
    rw [starts_eq hchunk, hm, List.range_succ_eq_map, List.map_cons, List.cons_append] at hbounds ⊢
    rw [(flatten_spans hbounds).1]
    simp
  · rw [length_spans, starts_eq hchunk]
    simp

theorem chunkCount_le {n chunk p : ℤ} (hchunk : 0 < chunk) (h : n ≤ p * chunk) :
    (chunkCount n chunk : ℤ) ≤ max p 0 := by
  have hle : (n + chunk - 1) / chunk ≤ p := by
    rw [← Int.lt_add_one_iff, Int.ediv_lt_iff_lt_mul hchunk]
    linarith [add_mul p 1 chunk]
  unfold chunkCount
  omega

/-! ### Workers -/

section

variable [Scalar α] [Numeral α] {n p : ℤ} {chunks : List (List ℤ)}

theorem allocate_of_one (h : n - p = 1) :
    allocate (α := α) n p = .ok ((span 0 (p - 1)).map (fun i => [i]) ++ [span (p - 1) n]) := by
  rw [allocate, if_pos h]
  rfl

theorem allocate_of_ne (h : n - p ≠ 1) (hp : p ≠ 0) :
    allocate (α := α) n p = quotient (α := α) n p >>=
    fun q => split n (if Int.fmod n p = 0 then q else q + 1) := by
  rw [allocate, if_neg h, if_neg hp]

theorem quotient_of_lt (h : n.natAbs < exactLimit) :
    quotient (α := α) n p = .ok (Int.tdiv n p) := if_pos h

private theorem flatten_of_one (hp : 1 ≤ p) (h : n - p = 1) :
    ((span 0 (p - 1)).map (fun i => [i]) ++ [span (p - 1) n]).flatten = span 0 n := by
  rw [List.flatten_append, List.flatten_singleton]
  have hsingle : ((span 0 (p - 1)).map fun i => [i]).flatten = span 0 (p - 1) := by
    induction span 0 (p - 1) with
    | nil => rfl
    | cons i is ih => rw [List.map_cons, List.flatten_cons, ih, List.singleton_append]
  rw [hsingle, span_append (by omega) (by omega)]

/-- Whatever the rounding of a quotient makes of the size of the chunks, they are all jobs in
order. -/
theorem flatten_of_allocate (hp : 1 ≤ p) (hpn : p ≤ n)
    (hq : ∀ q, quotient (α := α) n p = .ok q → 0 ≤ q) (h : allocate (α := α) n p = .ok chunks) :
    chunks.flatten = span 0 n := by
  by_cases hone : n - p = 1
  · rw [allocate_of_one hone] at h
    obtain rfl := Except.ok.inj h
    exact flatten_of_one hp hone
  · rw [allocate_of_ne hone (by omega)] at h
    obtain ⟨q, hquotient, h⟩ := ok_of_bind h
    have hnonneg := hq q hquotient
    generalize hchunk : (if Int.fmod n p = 0 then q else q + 1) = chunk at h
    have hchunk : 0 ≤ chunk := by split_ifs at hchunk <;> omega
    rcases hchunk.eq_or_lt with rfl | hpos
    · cases h
    · obtain ⟨found, hsplit, hflatten, -⟩ := split_spec (α := α) (by omega : 0 < n) hpos
      obtain rfl := Except.ok.inj (hsplit.symm.trans h)
      exact hflatten

/-- Numbers that are not too large are split into chunks, none of them empty and no more of them
than workers, which put together are all jobs in order. -/
theorem allocate_spec (hp : 1 ≤ p) (hpn : p ≤ n) (hn : n.natAbs < exactLimit) :
    ∃ chunks, allocate (α := α) n p = .ok chunks ∧ chunks.flatten = span 0 n ∧
      (∀ jobs ∈ chunks, jobs ≠ []) ∧
      (chunks.length : ℤ) ≤ p := by
  by_cases hone : n - p = 1
  · refine ⟨_, allocate_of_one hone, flatten_of_one hp hone, fun jobs hjobs => ?_, ?_⟩
    · rcases List.mem_append.mp hjobs with hjobs | hjobs
      · obtain ⟨i, -, rfl⟩ := List.mem_map.mp hjobs
        exact List.cons_ne_nil i []
      · obtain rfl := List.mem_singleton.mp hjobs
        exact span_ne_nil (by omega)
    · have hlength : (span 0 (p - 1)).length = (p - 1).toNat := by simp [span]
      simp only [List.length_append, List.length_map, List.length_singleton, hlength]
      omega
  · have hdiv : Int.tdiv n p = n / p := Int.tdiv_eq_ediv_of_nonneg (by omega)
    have hfmod : Int.fmod n p = n % p := Int.fmod_eq_emod_of_nonneg n (by omega)
    have hq : 1 ≤ n / p := (Int.le_ediv_iff_mul_le (by omega)).mpr (by omega)
    have hsum := Int.emod_add_mul_ediv n p
    have hmod := Int.emod_lt_of_pos n (show 0 < p by omega)
    generalize hchunk : (if Int.fmod n p = 0 then Int.tdiv n p else Int.tdiv n p + 1) = chunk
    have hroom : 0 < chunk ∧ n ≤ p * chunk := by
      rw [hdiv, hfmod] at hchunk
      split_ifs at hchunk with hzero
      · subst hchunk
        exact ⟨by omega, by omega⟩
      · subst hchunk
        exact ⟨by omega, by rw [mul_add, mul_one]; omega⟩
    obtain ⟨chunks, hsplit, hflatten, hne, hlength⟩ :=
      split_spec (α := α) (by omega : 0 < n) hroom.1
    refine ⟨chunks, ?_, hflatten, hne, ?_⟩
    · rw [allocate_of_ne hone (by omega), quotient_of_lt hn]
      change split n (if Int.fmod n p = 0 then Int.tdiv n p else Int.tdiv n p + 1) = _
      rw [hchunk, hsplit]
    · have hle := chunkCount_le hroom.1 hroom.2
      rw [hlength]
      omega

end

end Recourse.Schedule
