import Recourse.Proofs.Risk.Weights
import Recourse.Random.Source

/-! Which positions can be drawn. A uniform number points to a position of positive probability, and
each such position is pointed to by some uniform number; nothing else that a source may answer is
left out. -/

namespace Recourse

open RiskMeasure (Distribution)

variable {α γ : Type}

namespace Source

/-! ### Draws -/

section

variable [Source γ α] {g : γ}

theorem draw_on {n : ℕ} (hn : 1 < n) :
    (draw (n : ℤ) : Run α γ ℕ).on g = (.ok (below n g).1, (below n g).2) := by
  have hpos : ¬ (n : ℤ) ≤ 0 := by omega
  have hone : ¬ (n : ℤ) = 1 := by omega
  simp only [Run.on, draw, if_neg hpos, if_neg hone, Int.toNat_natCast]

theorem choose_on [Scalar α] {n : ℕ} {p : List α} (hn : n ≠ 0) (hp : isDistribution n p = true) :
    (choose n p).on g = (.ok (position p (uniform g).1), (uniform g).2) := by
  simp only [Run.on, choose, if_neg hn, if_pos hp]

end

variable [Field α] [LinearOrder α]

/-- A source that keeps to its ranges: uniform numbers from zero up to one, which is not reached,
and whole numbers below their limit. -/
structure Lawful (γ : Type) [Source γ α] : Prop where
  uniform : ∀ g : γ, 0 ≤ (uniform g).1 ∧ (uniform g).1 < 1
  below : ∀ (n : ℕ) (g : γ), 0 < n → (below n g).1 < n

/-! ### Running sums -/

def sumsFrom (c : α) : List α → List α
  | [] => []
  | x :: xs => (c + x) :: sumsFrom (c + x) xs

private theorem partialSums_foldl (xs acc : List α) (c : α) :
    xs.foldl (fun (acc : List α × α) x =>
      let s := acc.2 + x
      (s :: acc.1, s)) (acc, c) = ((sumsFrom c xs).reverse ++ acc, c + xs.sum) := by
  induction xs generalizing acc c with
  | nil => simp [sumsFrom]
  | cons x xs ih =>
    rw [List.foldl_cons, ih, sumsFrom, List.sum_cons, List.reverse_cons,
      List.append_assoc, add_assoc]
    rfl

theorem partialSums_eq (xs : List α) : partialSums xs = sumsFrom 0 xs := by
  rw [partialSums, partialSums_foldl, List.append_nil, List.reverse_reverse]

theorem getLastD_sumsFrom (c d : α) {xs : List α} (h : xs ≠ []) :
    (sumsFrom c xs).getLastD d = c + xs.sum := by
  induction xs generalizing c d with
  | nil => exact absurd rfl h
  | cons x xs ih =>
    cases xs with
    | nil => simp [sumsFrom]
    | cons y ys =>
      rw [sumsFrom, List.getLastD_cons, ih _ _ (List.cons_ne_nil y ys), add_assoc, ← List.sum_cons]

variable [IsStrictOrderedRing α]

theorem lt_of_mem_sumsFrom {c y : α} {xs : List α} (hxs : ∀ x ∈ xs, 0 ≤ x) (hy : y < c) :
    ∀ s ∈ sumsFrom c xs, y < s := by
  induction xs generalizing c with
  | nil => simp [sumsFrom]
  | cons x xs ih =>
    intro s hs
    have hnext : y < c + x := hy.trans_le (le_add_of_nonneg_right (hxs x (by simp)))
    rcases List.mem_cons.mp hs with rfl | hs
    · exact hnext
    · exact ih (fun z hz => hxs z (by simp [hz])) hnext s hs

def rank (c y : α) (xs : List α) : ℕ := ((sumsFrom c xs).filter fun s => decide (s ≤ y)).length

omit [IsStrictOrderedRing α] in
theorem rank_cons_of_le {c x y : α} {xs : List α} (h : c + x ≤ y) :
    rank c y (x :: xs) = rank (c + x) y xs + 1 := by
  simp [rank, sumsFrom, h]

theorem rank_of_lt {c x y : α} {xs : List α} (hxs : ∀ z ∈ xs, 0 ≤ z) (h : y < c + x) :
    rank c y (x :: xs) = 0 := by
  have hnone : (sumsFrom (c + x) xs).filter (fun s => decide (s ≤ y)) = [] :=
    List.filter_eq_nil_iff.mpr fun s hs => by simpa using lt_of_mem_sumsFrom hxs h s hs
  simp [rank, sumsFrom, hnone, h]

/-- A number between two running sums tells a term that is not zero. -/
theorem rank_pos {c y : α} {xs : List α} (hxs : ∀ x ∈ xs, 0 ≤ x) (hc : c ≤ y)
    (hy : y < c + xs.sum) :
    0 < xs.getD (rank c y xs) 0 := by
  induction xs generalizing c with
  | nil =>
    rw [List.sum_nil, add_zero] at hy
    exact absurd hc (not_le.mpr hy)
  | cons x xs ih =>
    have hrest : ∀ z ∈ xs, 0 ≤ z := fun z hz => hxs z (by simp [hz])
    rcases le_or_gt (c + x) y with h | h
    · rw [rank_cons_of_le h, List.getD_cons_succ]
      apply ih hrest h
      rwa [List.sum_cons, ← add_assoc] at hy
    · rw [rank_of_lt hrest h, List.getD_cons_zero]
      linarith

/-- The sum of the terms before one that is not zero tells its position. -/
theorem rank_take {c : α} {xs : List α} (hxs : ∀ x ∈ xs, 0 ≤ x) {k : ℕ} (hk : 0 < xs.getD k 0) :
    rank c (c + (xs.take k).sum) xs = k := by
  induction xs generalizing c k with
  | nil => simp at hk
  | cons x xs ih =>
    have hrest : ∀ z ∈ xs, 0 ≤ z := fun z hz => hxs z (by simp [hz])
    cases k with
    | zero =>
      rw [List.getD_cons_zero] at hk
      apply rank_of_lt hrest
      simpa using hk
    | succ k =>
      rw [List.getD_cons_succ] at hk
      have htake : 0 ≤ (xs.take k).sum := List.sum_nonneg fun z hz =>
        hrest z (List.mem_of_mem_take hz)
      rw [List.take_succ_cons, List.sum_cons, ← add_assoc, rank_cons_of_le (by linarith),
        ih hrest hk]

/-! ### Positions -/

variable {p : List α} {k : ℕ}

theorem position_eq (hsum : 0 < p.sum) (x : α) : position p x = rank 0 (x * p.sum) p := by
  have hne : p ≠ [] := by
    rintro rfl
    exact absurd hsum (by simp)
  unfold position rank
  dsimp only
  rw [partialSums_eq, getLastD_sumsFrom 0 1 hne, zero_add]
  congr 2
  funext s
  exact decide_eq_decide.mpr (div_le_iff₀ hsum)

/-- What is drawn has a positive probability. -/
theorem position_pos (hp : ∀ x ∈ p, 0 ≤ x) (hsum : 0 < p.sum) {x : α} (hx : 0 ≤ x) (hx' : x < 1) :
    0 < p.getD (position p x) 0 := by
  rw [position_eq hsum]
  apply rank_pos hp (mul_nonneg hx hsum.le)
  rw [zero_add]
  exact mul_lt_of_lt_one_left hsum hx'

/-- What has a positive probability can be drawn. -/
theorem exists_position (hp : ∀ x ∈ p, 0 ≤ x) (hk : 0 < p.getD k 0) :
    ∃ x, 0 ≤ x ∧ x < 1 ∧ position p x = k := by
  have hlt : k < p.length := by
    by_contra hk'
    simp [List.getElem?_eq_none (not_lt.mp hk')] at hk
  have htake : 0 ≤ (p.take k).sum := List.sum_nonneg fun z hz => hp z (List.mem_of_mem_take hz)
  have hdrop : 0 < (p.drop k).sum := by
    rw [List.drop_eq_getElem_cons hlt, List.sum_cons]
    have hpos : 0 < p[k] := by simpa [hlt] using hk
    exact add_pos_of_pos_of_nonneg hpos (List.sum_nonneg fun z hz => hp z (List.mem_of_mem_drop hz))
  have hsplit := List.sum_take_add_sum_drop p k
  have hsum : 0 < p.sum := by linarith
  refine ⟨(p.take k).sum / p.sum, div_nonneg htake hsum.le, ?_, ?_⟩
  · rw [div_lt_one hsum]
    linarith
  · rw [position_eq hsum, div_mul_cancel₀ _ hsum.ne', ← zero_add (p.take k).sum, rank_take hp hk]

/-! ### Distributions -/

theorem isDistribution_iff_of_nonneg {n : ℕ} (hp : ∀ x ∈ p, 0 ≤ x) :
    isDistribution n p = true ↔ p.length = n ∧ |p.sum - 1| ≤ sumTolerance := by
  have hany : (p.any fun x => decide (x < 0)) = false := by
    rw [List.any_eq_false]
    intro x hx
    simpa using hp x hx
  simp [isDistribution, hany, Scalar.total_eq_sum]

theorem isDistribution_of_sum (hp : Distribution p) : isDistribution p.length p = true := by
  rw [isDistribution_iff_of_nonneg hp.nonneg, hp.sum, sub_self, abs_zero]
  refine ⟨rfl, ?_⟩
  rw [sumTolerance, Scalar.ratio_eq]
  positivity

end Source

/-! ### Tapes -/

/-- A source that gives away what is written on it: numbers from zero up to one, and whole numbers
that are brought below the limit that is asked for. -/
abbrev Tape (α : Type) [Field α] [LinearOrder α] := List ({x : α // 0 ≤ x ∧ x < 1} × ℕ)

variable [Field α] [LinearOrder α] [IsStrictOrderedRing α]

instance : Source (Tape α) α where
  uniform
    | [] => (0, [])
    | x :: tape => (x.1, tape)
  below n
    | [] => (0, [])
    | x :: tape => (x.2 % n, tape)
  ofSeed _ := []
  ofSeeds _ := []

theorem Tape.lawful : Source.Lawful (Tape α) where
  uniform := fun g => by
    cases g with
    | nil => exact ⟨le_rfl, zero_lt_one⟩
    | cons x g => exact x.1.2
  below := fun n g hn => by
    cases g with
    | nil => exact hn
    | cons x g => exact Nat.mod_lt _ hn

end Recourse
