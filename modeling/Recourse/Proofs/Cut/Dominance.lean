import Recourse.Proofs.Scalar
import Recourse.Cut.Dominance

/-! Soundness of the dominance test. The excess of one cut over another one is affine, so its
largest value over a box is the sum of the largest values of its terms. A sum of `Extent`s is above
every sum of numbers that the addends are above, whether or not the box is bounded. -/

namespace Recourse

variable {α : Type} [Field α] [LinearOrder α]

namespace Box

def Contains (b : Box α) (x : List α) : Prop :=
  List.Forall₂ (fun l v => l.1.leNumber v = true ∧ Limit.numberLe v l.2 = true)
    (b.lower.zip b.upper) x

end Box

namespace Extent

/-- Whether a sum is above a number. An undefined one, or one without end below, is above none. -/
def Above (v : α) : Extent α → Prop
  | .fin a => v ≤ a
  | .posInf => True
  | .negInf => False
  | .undefined => False

theorem le_of_above {e : Extent α} {v b : α} (h : e.Above v) (hb : e.leNumber b = true) :
    v ≤ b := by
  cases e with
  | fin a => exact le_trans h (by simpa [leNumber] using hb)
  | posInf => simp [leNumber] at hb
  | negInf => exact h.elim
  | undefined => exact h.elim

variable [IsStrictOrderedRing α]

theorem Above.add {e f : Extent α} {v w : α} (he : e.Above v) (hf : f.Above w) :
    (e.add f).Above (v + w) := by
  cases e <;> cases f <;> simp_all [Above, Extent.add, shift]
  exact add_le_add he hf

private theorem above_foldl {es : List (Extent α)} {vs : List α}
    (h : List.Forall₂ (fun e v => e.Above v) es vs) {e : Extent α} {v : α} (he : e.Above v) :
    (es.foldl Extent.add e).Above (v + vs.sum) := by
  induction h generalizing e v with
  | nil => simpa using he
  | cons h1 _ ih =>
    rw [List.foldl_cons, List.sum_cons, ← add_assoc]
    exact ih (he.add h1)

theorem above_sum {es : List (Extent α)} {vs : List α}
    (h : List.Forall₂ (fun e v => e.Above v) es vs) :
    (Extent.sum es).Above vs.sum := by
  rw [← zero_add vs.sum]
  exact above_foldl h (show (0 : α) ≤ 0 from le_rfl)

/-- The largest value of a term over a coordinate is above the value at each point between the
limits. -/
theorem above_ofTerm {d v : α} {lower upper : Limit α} (hl : lower.leNumber v = true)
    (hu : Limit.numberLe v upper = true) : (ofTerm d lower upper).Above (d * v) := by
  unfold ofTerm
  split_ifs with hpos hneg
  · cases upper with
    | below => simp [Limit.numberLe] at hu
    | fin u => exact mul_le_mul_of_nonneg_left (by simpa [Limit.numberLe] using hu) hpos.le
    | above => trivial
  · cases lower with
    | below => trivial
    | fin l => exact mul_le_mul_of_nonpos_left (by simpa [Limit.leNumber] using hl) hneg.le
    | above => simp [Limit.leNumber] at hl
  · have : d = 0 := le_antisymm (not_lt.mp hpos) (not_lt.mp hneg)
    simp [this, Above]

theorem above_terms (ds : List α) {limits : List (Limit α × Limit α)} {x : List α}
    (hx : List.Forall₂ (fun l v => l.1.leNumber v = true ∧ Limit.numberLe v l.2 = true) limits x) :
    (Extent.sum (ds.zipWith (fun d l => ofTerm d l.1 l.2) limits)).Above (Scalar.dot ds x) := by
  rw [Scalar.dot, Scalar.total_eq_sum]
  apply above_sum
  induction hx generalizing ds with
  | nil => simp
  | cons hv _ ih =>
    cases ds with
    | nil => simp
    | cons d ds => exact .cons (above_ofTerm hv.1 hv.2) (ih ds)

end Extent

namespace Cut

/-- The value of a cut at a point that lists the state and then the noise. -/
def evaluate (c : Cut α) (x : List α) : α := c.intercept + Scalar.dot c.gradient x

/-- Whether each slope of a cut is equal to the one of another cut or differs by no less than the
tolerance for slopes. -/
def Apart (c other : Cut α) : Prop :=
  List.Forall₂ (fun a b => a = b ∨ slopeTolerance ≤ |a - b|) c.gradient other.gradient

private theorem dot_orient_sub {sense : Sense} {as bs : List α} (h : as.length = bs.length)
    (x : List α) :
    Scalar.dot (List.zipWith (fun a b => sense.orient (a - b)) as bs) x =
      sense.orient (Scalar.dot as x - Scalar.dot bs x) := by
  induction as generalizing bs x with
  | nil =>
    obtain rfl := List.length_eq_zero_iff.mp h.symm
    simp
  | cons a as ih =>
    obtain ⟨b, bs, rfl⟩ := List.exists_cons_of_length_eq_add_one h.symm
    cases x with
    | nil => simp
    | cons v x =>
      simp only [List.zipWith_cons_cons, Scalar.dot_cons, ih (by simpa using h)]
      cases sense <;> simp only [Sense.orient] <;> ring

variable [IsStrictOrderedRing α]

theorem dominanceTolerance_eq (c : Cut α) :
    c.dominanceTolerance = Scalar.ratio 1 (10 ^ 9) * (1 + |c.intercept|) := by
  rw [dominanceTolerance, Scalar.abs_eq, Nat.pow_eq]

theorem dominanceTolerance_pos (c : Cut α) : 0 < c.dominanceTolerance := by
  rw [dominanceTolerance_eq, Scalar.ratio_eq]
  positivity

theorem slopeExcess_self (sense : Sense) (a : α) : slopeExcess sense a a = 0 := by
  simp [slopeExcess]

theorem slopeExcess_eq {sense : Sense} {a b : α} (h : a = b ∨ slopeTolerance ≤ |a - b|) :
    slopeExcess sense a b = sense.orient (a - b) := by
  rcases h with rfl | h
  · simp [slopeExcess]
  · have habs : |sense.orient (a - b)| = |a - b| := by
      cases sense
      · rfl
      · exact abs_neg _
    simp only [slopeExcess, Scalar.abs_eq, habs, if_neg (not_lt.mpr h)]

private theorem zipWith_slopeExcess {sense : Sense} {as bs : List α}
    (h : List.Forall₂ (fun a b => a = b ∨ slopeTolerance ≤ |a - b|) as bs) :
    List.zipWith (slopeExcess sense) as bs = List.zipWith
      (fun a b => sense.orient (a - b)) as bs := by
  induction h with
  | nil => rfl
  | cons hab _ ih => rw [List.zipWith_cons_cons, List.zipWith_cons_cons, ih, slopeExcess_eq hab]

/-- The extent of a difference of slopes is above the difference at each point of the box. -/
theorem slopeExtent_above (sense : Sense) {box : Box α} {c other : Cut α} (h : c.Apart other)
    {x : List α} (hx : box.Contains x) :
    (slopeExtent sense box c.gradient other.gradient).Above
      (sense.orient (Scalar.dot c.gradient x - Scalar.dot other.gradient x)) := by
  rw [← dot_orient_sub h.length_eq, slopeExtent, zipWith_slopeExcess h]
  exact Extent.above_terms _ hx

/-- A dominated cut is nowhere in the box tighter than the other one by more than its tolerance. -/
theorem evaluate_le_of_isDominated {sense : Sense} {box : Box α} {c other : Cut α}
    (h : c.Apart other) (hd : c.isDominated sense box other = true) {x : List α}
    (hx : box.Contains x) :
    sense.orient (c.evaluate x) ≤ sense.orient (other.evaluate x) + c.dominanceTolerance := by
  have habove :=
    (show Extent.Above _ (.fin (sense.orient (c.intercept - other.intercept))) from le_rfl).add
    (slopeExtent_above sense h hx)
  have hle := Extent.le_of_above habove hd
  simp only [evaluate, Sense.orient_add, Sense.orient_sub] at hle ⊢
  linarith

private theorem slopeExtent_self (sense : Sense) (box : Box α) (as : List α) :
    slopeExtent sense box as as = .fin 0 := by
  have hzero : ∀ es : List (Extent α), (∀ e ∈ es, e = .fin 0) → Extent.sum es = .fin 0 := by
    intro es hes
    induction es with
    | nil => rfl
    | cons e es ih =>
      have h0 := hes e (by simp)
      have htail := ih fun f hf => hes f (by simp [hf])
      simpa [Extent.sum, h0, Extent.add] using htail
  refine hzero _ fun e he => ?_
  rw [List.zipWith_self] at he
  obtain ⟨i, hi, rfl⟩ := List.getElem_of_mem he
  simp [slopeExcess_self, Extent.ofTerm]

@[simp] theorem isDominated_self (sense : Sense) (box : Box α) (c : Cut α) :
    c.isDominated sense box c = true := by
  simp [isDominated, slopeExtent_self, Extent.add, Extent.leNumber, (dominanceTolerance_pos c).le]

end Cut

end Recourse
