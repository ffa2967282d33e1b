import Mathlib.Tactic
import Mathlib.Algebra.Order.Field.Basic
import Mathlib.Algebra.BigOperators.Group.List.Basic
import Recourse.Limit

/-! The numbers of an ordered field, on which the arithmetic is exact: nothing is rounded, and every
number is finite. Inner products become sums over positions. -/

namespace Recourse

open Finset

variable {α : Type} [Field α] [LinearOrder α]

/-- An ordered field as a number system. -/
instance Scalar.ofField : Scalar α where
  leDecidable := inferInstanceAs (DecidableLE α)
  ltDecidable := inferInstanceAs (DecidableLT α)

namespace Scalar

@[simp] theorem isNumber_eq (x : α) : isNumber x = true := by simp [isNumber]

@[simp] theorem isFinite_eq (x : α) : isFinite x = true := by simp [isFinite]

@[simp] theorem isPosInf_eq (x : α) : isPosInf x = false := by simp [isPosInf]

@[simp] theorem isNegInf_eq (x : α) : isNegInf x = false := by simp [isNegInf]

theorem least_eq_min (x y : α) : least x y = min x y := by
  unfold least
  split_ifs with h
  · rw [min_eq_right h.le]
  · rw [min_eq_left (not_lt.mp h)]

theorem ratio_eq (m n : ℕ) : (ratio m n : α) = m / n := rfl

theorem pow_eq (x : α) (n : ℕ) : pow x n = x ^ n := by
  induction n with
  | zero => exact (pow_zero x).symm
  | succ n ih => rw [pow, ih, pow_succ]

theorem total_eq_sum (xs : List α) : total xs = xs.sum := by
  rw [total, List.sum_eq_foldl]

theorem sum_eq_sum_range {xs : List α} {n : ℕ} (h : xs.length ≤ n) :
    xs.sum = ∑ i ∈ range n, xs.getD i 0 := by
  induction xs generalizing n with
  | nil => simp
  | cons x xs ih =>
    obtain ⟨m, rfl⟩ : ∃ m, n = m + 1 := ⟨n - 1, by simp at h; omega⟩
    rw [sum_range_succ', List.sum_cons, ih (by simpa using h), add_comm]
    simp

theorem getD_zipWith_mul (xs ys : List α) (i : ℕ) :
    (List.zipWith (· * ·) xs ys).getD i 0 = xs.getD i 0 * ys.getD i 0 := by
  simp only [List.getD_eq_getElem?_getD, List.getElem?_zipWith]
  cases xs[i]? <;> cases ys[i]? <;> simp

/-- An inner product as a sum over positions; beyond the end of a list there are zeros. -/
theorem dot_eq_sum_range {xs ys : List α} {n : ℕ} (h : min xs.length ys.length ≤ n) :
    dot xs ys = ∑ i ∈ range n, xs.getD i 0 * ys.getD i 0 := by
  rw [dot, total_eq_sum, sum_eq_sum_range (n := n) (by simpa using h)]
  simp only [getD_zipWith_mul]

@[simp] theorem dot_nil_left (ys : List α) : dot [] ys = 0 := rfl

@[simp] theorem dot_nil_right (xs : List α) : dot xs [] = 0 := by simp [dot, total]

@[simp] theorem dot_cons (x y : α) (xs ys : List α) :
    dot (x :: xs) (y :: ys) = x * y + dot xs ys := by
  simp [dot, total_eq_sum]

@[simp] theorem dot_replicate_zero (n : ℕ) (ys : List α) : dot (List.replicate n 0) ys = 0 := by
  induction n generalizing ys with
  | zero => simp
  | succ n ih => cases ys <;> simp [List.replicate_succ, ih]

theorem dot_append {xs ys : List α} (h : xs.length = ys.length) (xs' ys' : List α) :
    dot (xs ++ xs') (ys ++ ys') = dot xs ys + dot xs' ys' := by
  simp [dot, total_eq_sum, List.zipWith_append h]

theorem dot_zipWith_sub (a : List α) {x y : List α} (h : x.length = y.length) :
    dot a (List.zipWith (· - ·) x y) = dot a x - dot a y := by
  induction a generalizing x y with
  | nil => simp
  | cons c a ih =>
    cases x with
    | nil => simp [List.length_eq_zero_iff.mp h.symm]
    | cons v x =>
      obtain ⟨w, y, rfl⟩ := List.exists_cons_of_length_eq_add_one h.symm
      rw [List.zipWith_cons_cons, dot_cons, dot_cons, dot_cons, ih (by simpa using h)]
      ring

/-- The rows of a table weighted and added up, against a direction: each row is taken in that
direction and weighted. -/
theorem dot_weightedRows {weights : List α} {rows : List (List α)} {n : ℕ} {d : List α}
    (hw : weights.length = n) :
    dot (weightedRows d.length weights rows) d =
      ∑ i ∈ range n, weights.getD i 0 * dot (rows.getD i []) d := by
  have hrow (i : ℕ) : dot (rows.getD i []) d =
      ∑ j ∈ range d.length, (rows.getD i []).getD j 0 * d.getD j 0 :=
    dot_eq_sum_range (min_le_right _ _)
  have hcol (j : ℕ) : dot weights (rows.map fun row => row.getD j 0) =
      ∑ i ∈ range n, weights.getD i 0 * (rows.getD i []).getD j 0 := by
    rw [dot_eq_sum_range (n := n) (by simp [hw])]
    refine sum_congr rfl fun i _ => ?_
    simp only [List.getD_eq_getElem?_getD, List.getElem?_map]
    cases rows[i]? <;> simp
  calc dot (weightedRows d.length weights rows) d
      = ∑ j ∈ range d.length,
          (∑ i ∈ range n, weights.getD i 0 * (rows.getD i []).getD j 0) * d.getD j 0 := by
        rw [dot_eq_sum_range (n := d.length) (by simp)]
        refine sum_congr rfl fun j hj => ?_
        rw [weightedRows, List.getD_eq_getElem?_getD, List.getElem?_map,
          List.getElem?_range (mem_range.mp hj)]
        exact congrArg (· * _) (hcol j)
    _ = ∑ i ∈ range n, weights.getD i 0 * dot (rows.getD i []) d := by
        simp only [hrow, sum_mul, mul_sum, mul_assoc]
        exact sum_comm

variable [IsStrictOrderedRing α]

@[simp] theorem abs_eq (x : α) : Scalar.abs x = |x| := by
  unfold Scalar.abs
  split_ifs with h
  · exact (abs_of_neg h).symm
  · rw [add_zero, abs_of_nonneg (not_lt.mp h)]

end Scalar

namespace Sense

/-! A value as a cost: linear in the value, and its own inverse. -/

variable {sense : Sense}

@[simp] theorem orient_zero : sense.orient (0 : α) = 0 := by cases sense <;> simp [orient]

theorem orient_add (x y : α) : sense.orient (x + y) = sense.orient x + sense.orient y := by
  cases sense <;> simp [orient, add_comm]

theorem orient_sub (x y : α) : sense.orient (x - y) = sense.orient x - sense.orient y := by
  cases sense <;> simp [orient, sub_eq_add_neg, add_comm]

theorem orient_neg (x : α) : sense.orient (-x) = -sense.orient x := by
  cases sense <;> simp [orient]

theorem orient_mul (a x : α) : sense.orient (a * x) = a * sense.orient x := by
  cases sense <;> simp [orient]

@[simp] theorem orient_orient (x : α) : sense.orient (sense.orient x) = x := by
  cases sense <;> simp [orient]

theorem orient_list_sum (xs : List α) : sense.orient xs.sum = (xs.map sense.orient).sum := by
  induction xs with
  | nil => simp
  | cons x xs ih => rw [List.sum_cons, orient_add, ih, List.map_cons, List.sum_cons]

theorem orient_sum {ι : Type} (s : Finset ι) (f : ι → α) :
    sense.orient (∑ i ∈ s, f i) = ∑ i ∈ s, sense.orient (f i) := by
  cases sense <;> simp [orient]

end Sense

end Recourse
