import Recourse.Proofs.Fraction
import Recourse.Proofs.Cut.Pool

/-! Exactness of the dominance test. The extent of a difference of slopes is not only above the
difference at each point of the box, it is also reached: where the box is bounded on the side that
counts, at a corner, and where it is not, by points that go beyond every number. So a cut that the
test does not drop is tighter at some point of the box. -/

namespace Recourse

variable {α : Type} [Field α] [LinearOrder α] [IsStrictOrderedRing α]

namespace Limit

omit [IsStrictOrderedRing α] in
theorem leNumber_mono {l : Limit α} {v w : α} (h : l.leNumber v = true) (hvw : v ≤ w) :
    l.leNumber w = true := by
  cases l with
  | below => simp [leNumber]
  | fin a => exact decide_eq_true ((of_decide_eq_true h).trans hvw)
  | above => simp [leNumber] at h

omit [IsStrictOrderedRing α] in
theorem numberLe_anti {l : Limit α} {v w : α} (h : numberLe v l = true) (hwv : w ≤ v) :
    numberLe w l = true := by
  cases l with
  | below => simp [numberLe] at h
  | fin a => exact decide_eq_true (hwv.trans (of_decide_eq_true h))
  | above => simp [numberLe]

end Limit

/-! ### Extents that are reached -/

namespace Extent

/-- Whether some numbers come up to a sum; they come up to an infinite one if they go beyond every
number. -/
def Met (values : Set α) : Extent α → Prop
  | .fin a => ∃ v ∈ values, a ≤ v
  | .posInf => ∀ b, ∃ v ∈ values, b ≤ v
  | .negInf => False
  | .undefined => False

variable {e f : Extent α} {values others : Set α} {d b : α} {lower upper : Limit α} {ds : List α}
  {limits : List (Limit α × Limit α)}

omit [IsStrictOrderedRing α] in
theorem Met.mono (he : e.Met values) (h : ∀ v ∈ values, v ∈ others) : e.Met others := by
  cases e with
  | fin a =>
    obtain ⟨v, hv, ha⟩ := he
    exact ⟨v, h v hv, ha⟩
  | posInf =>
    intro b
    obtain ⟨v, hv, hb⟩ := he b
    exact ⟨v, h v hv, hb⟩
  | negInf => exact he
  | undefined => exact he

theorem Met.add (he : e.Met values) (hf : f.Met others) :
    (e.add f).Met (Set.image2 (· + ·) values others) := by
  have hbeyond {values others : Set α} {a : α} (ha : ∃ u ∈ values, a ≤ u)
      (hf : ∀ b, ∃ v ∈ others, b ≤ v) (b : α) :
      ∃ u ∈ values, ∃ v ∈ others, b ≤ u + v := by
    obtain ⟨u, hu, hau⟩ := ha
    obtain ⟨v, hv, hbv⟩ := hf (b - a)
    exact ⟨u, hu, v, hv, by linarith⟩
  cases e with
  | fin a =>
    cases f with
    | fin b =>
      obtain ⟨u, hu, hau⟩ := he
      obtain ⟨v, hv, hbv⟩ := hf
      exact ⟨u + v, ⟨u, hu, v, hv, rfl⟩, add_le_add hau hbv⟩
    | posInf =>
      simp only [Extent.add, shift, Scalar.isFinite_eq, Bool.true_or, if_true]
      intro b
      obtain ⟨u, hu, v, hv, hle⟩ := hbeyond he hf b
      exact ⟨u + v, ⟨u, hu, v, hv, rfl⟩, hle⟩
    | negInf => exact hf.elim
    | undefined => exact hf.elim
  | posInf =>
    cases f with
    | fin a =>
      simp only [Extent.add, shift, Scalar.isFinite_eq, Bool.true_or, if_true]
      intro b
      obtain ⟨v, hv, u, hu, hle⟩ := hbeyond hf he b
      exact ⟨u + v, ⟨u, hu, v, hv, rfl⟩, by rwa [add_comm]⟩
    | posInf =>
      intro b
      obtain ⟨u, hu, hzero⟩ := he 0
      obtain ⟨u, hu, v, hv, hle⟩ := hbeyond ⟨u, hu, hzero⟩ hf b
      exact ⟨u + v, ⟨u, hu, v, hv, rfl⟩, hle⟩
    | negInf => exact hf.elim
    | undefined => exact hf.elim
  | negInf => exact he.elim
  | undefined => exact he.elim

/-- Between limits that leave room for a number, the largest value of a term is met. -/
theorem met_ofTerm {v : α} (hl : lower.leNumber v = true) (hu : Limit.numberLe v upper = true) :
    (ofTerm d lower upper).Met
    {w | ∃ v, (lower.leNumber v = true ∧ Limit.numberLe v upper = true) ∧ d * v = w} := by
  unfold ofTerm
  split_ifs with hpos hneg
  · cases upper with
    | below => simp [Limit.numberLe] at hu
    | fin u =>
      refine ⟨d * u, ⟨u, ⟨?_, by simp [Limit.numberLe]⟩, rfl⟩, le_rfl⟩
      exact Limit.leNumber_mono hl (by simpa [Limit.numberLe] using hu)
    | above =>
      intro b
      refine ⟨d * max v (b / d), ⟨max v (b / d), ⟨?_, by simp [Limit.numberLe]⟩, rfl⟩, ?_⟩
      · exact Limit.leNumber_mono hl (le_max_left _ _)
      · rw [mul_comm, ← div_le_iff₀ hpos]
        exact le_max_right _ _
  · cases lower with
    | below =>
      intro b
      refine ⟨d * min v (b / d), ⟨min v (b / d), ⟨by simp [Limit.leNumber], ?_⟩, rfl⟩, ?_⟩
      · exact Limit.numberLe_anti hu (min_le_left _ _)
      · rw [mul_comm, ← le_div_iff_of_neg hneg]
        exact min_le_right _ _
    | fin l =>
      refine ⟨d * l, ⟨l, ⟨by simp [Limit.leNumber], ?_⟩, rfl⟩, le_rfl⟩
      exact Limit.numberLe_anti hu (by simpa [Limit.leNumber] using hl)
    | above => simp [Limit.leNumber] at hl
  · obtain rfl : d = 0 := le_antisymm (not_lt.mp hpos) (not_lt.mp hneg)
    exact ⟨0 * v, ⟨v, ⟨hl, hu⟩, rfl⟩, by simp⟩

def Points (limits : List (Limit α × Limit α)) : Set (List α) :=
  {x | List.Forall₂ (fun l v => l.1.leNumber v = true ∧ Limit.numberLe v l.2 = true) limits x}

private theorem met_foldl {x : List α} (hx : x ∈ Points limits)
    (hlength : ds.length = limits.length) (he : e.Met values) :
    ((ds.zipWith (fun d l => ofTerm d l.1 l.2) limits).foldl Extent.add e).Met
      (Set.image2 (fun u y => u + Scalar.dot ds y) values (Points limits)) := by
  induction hx generalizing ds e values with
  | nil =>
    obtain rfl := List.length_eq_zero_iff.mp hlength
    apply he.mono
    intro u hu
    exact ⟨u, hu, [], .nil, by simp⟩
  | cons hv _ ih =>
    obtain ⟨d, ds, rfl⟩ := List.exists_cons_of_length_eq_add_one hlength
    rw [List.zipWith_cons_cons, List.foldl_cons]
    apply (ih (Nat.succ.inj hlength) (he.add (met_ofTerm (d := d) hv.1 hv.2))).mono
    rintro _ ⟨_, ⟨u, hu, _, ⟨v, hv, rfl⟩, rfl⟩, y, hy, rfl⟩
    exact ⟨u, hu, v :: y, .cons hv hy, by simp only [Scalar.dot_cons, add_assoc]⟩

/-- Between limits that leave room for a point, the sum of the largest values of terms is met by the
sums at the points. -/
theorem met_terms {x : List α} (hx : x ∈ Points limits) (hlength : ds.length = limits.length) :
    (Extent.sum (ds.zipWith (fun d l => ofTerm d l.1 l.2) limits)).Met
    (Scalar.dot ds '' Points limits) := by
  have hzero : (Extent.fin (0 : α)).Met {0} := ⟨0, rfl, le_rfl⟩
  apply (met_foldl hx hlength hzero).mono
  rintro _ ⟨_, rfl, y, hy, rfl⟩
  exact ⟨y, hy, (zero_add _).symm⟩

/-- What meets a sum and stays at or below a number shows that the sum does. -/
theorem Met.leNumber (he : e.Met values) (h : ∀ v ∈ values, v ≤ b) : e.leNumber b = true := by
  cases e with
  | fin a =>
    obtain ⟨v, hv, hav⟩ := he
    exact decide_eq_true (hav.trans (h v hv))
  | posInf =>
    obtain ⟨v, hv, hbv⟩ := he (b + 1)
    linarith [h v hv]
  | negInf => exact he.elim
  | undefined => exact he.elim

end Extent

/-! ### The test -/

namespace Cut

omit [IsStrictOrderedRing α] in
theorem Fits.effective {c : Cut α} {box : Box α} (h : c.Fits box) : c.Fits box.effective where
  numeric := h.numeric
  lower := List.length_map .. |>.trans h.lower
  upper := List.length_map .. |>.trans h.upper

/-- A cut is dominated just if its excess is within the tolerance at every point of the box. -/
theorem isDominated_iff (sense : Sense) {box : Box α} {c other : Cut α} (hc : c.Fits box)
    (ho : other.Fits box) (hbox : ∃ x, box.Contains x) :
    c.isDominated sense box other = true ↔ ∀ x, box.Contains x →
      sense.orient (c.intercept - other.intercept) +
        Scalar.dot (List.zipWith (slopeExcess sense) c.gradient other.gradient) x ≤
        c.dominanceTolerance := by
  constructor
  · intro hdominated x hx
    have hintercept : (Extent.fin (sense.orient (c.intercept - other.intercept))).Above _ :=
      le_refl _
    exact Extent.le_of_above (hintercept.add (Extent.above_terms _ hx)) hdominated
  · intro hexcess
    obtain ⟨x, hx⟩ := hbox
    have hlength : (List.zipWith (slopeExcess sense) c.gradient other.gradient).length =
        (box.lower.zip box.upper).length := by
      rw [List.length_zipWith, List.length_zip, hc.upper, ← ho.lower, hc.lower]
    have hintercept : (Extent.fin (sense.orient (c.intercept - other.intercept))).Met
        {sense.orient (c.intercept - other.intercept)} := ⟨_, rfl, le_rfl⟩
    apply (hintercept.add (Extent.met_terms hx hlength)).leNumber
    rintro _ ⟨_, rfl, _, ⟨y, hy, rfl⟩, rfl⟩
    exact hexcess y hy

end Cut

namespace Pool

/-- On a pool over a box with a point in it, where limits of a magnitude of 10^100 and more count as
infinite, the test answers for any two cuts with as many slopes as the box has coordinates, and it
finds the first one dominated just if its excess over the second one is within the tolerance at
every point. -/
theorem dominance_exact (p : Pool α) (box : Box α) (c other : Cut α) (hp : p.box = box.effective)
    (hc : c.Fits box) (ho : other.Fits box) (hbox : ∃ x, box.effective.Contains x) :
    ∃ dominated, p.dominates? c other = .ok dominated ∧
      (dominated = true ↔ ∀ x, box.effective.Contains x →
      p.sense.orient (c.intercept - other.intercept) +
        Scalar.dot (List.zipWith (Cut.slopeExcess p.sense) c.gradient other.gradient) x ≤
          1 / 10 ^ 9 * (1 + |c.intercept|)) := by
  have htolerance : c.dominanceTolerance = 1 / 10 ^ 9 * (1 + |c.intercept|) := by
    rw [Cut.dominanceTolerance_eq, Scalar.ratio_eq]
    norm_num
  refine ⟨c.isDominated p.sense p.box other, ?_, ?_⟩
  · rw [dominates?, hp]
    exact Cut.isDominated?_eq p.sense hc.effective ho.effective
  · rw [hp, Cut.isDominated_iff p.sense hc.effective ho.effective hbox, htolerance]

/-- A pool over the numbers from zero to 10^30, for a minimization. -/
def wide : Pool ℚ := .empty .minimize ⟨[.fin 0], [.fin (10 ^ 30)]⟩ false

def rising : Cut ℚ := ⟨0, 0, 0, [1], [], none, none⟩

def level (intercept : ℚ) : Cut ℚ := ⟨0, 0, intercept, [0], [], none, none⟩

/-- The rising cut stays below a level that is above the end of the box. -/
theorem dominance_exact_wide : ∃ dominated,
    wide.dominates? rising (level (2 * 10 ^ 30)) = .ok dominated ∧
    (dominated = true ↔ ∀ x, (⟨[.fin 0], [.fin (10 ^ 30)]⟩ : Box ℚ).effective.Contains x →
      (0 - 2 * 10 ^ 30 : ℚ) + Scalar.dot (List.zipWith (Cut.slopeExcess .minimize) [1] [0]) x ≤ 1 /
      10 ^ 9 * (1 + |0|)) :=
  dominance_exact wide ⟨[.fin 0], [.fin (10 ^ 30)]⟩ rising (level (2 * 10 ^ 30)) rfl ⟨rfl, rfl, rfl⟩
    ⟨rfl, rfl, rfl⟩
    ⟨[0], .cons ⟨by decide +kernel, by decide +kernel⟩ .nil⟩

/-- A limit of 10^30 is a limit. If magnitudes from 10^20 on counted as infinite, the rising cut
would go above the level within the box, and yet the test finds it dominated. -/
theorem dominates_wide : wide.dominates? rising (level (2 * 10 ^ 30)) = .ok true ∧
    ∃ x, (⟨[Limit.truncate (10 ^ 20) (.fin 0)],
        [Limit.truncate (10 ^ 20) (.fin (10 ^ 30))]⟩ : Box ℚ).Contains x ∧
      ¬ (0 - 2 * 10 ^ 30 : ℚ) + Scalar.dot (List.zipWith (Cut.slopeExcess .minimize) [1] [0]) x ≤
      1 / 10 ^ 9 * (1 + |0|) := by
  constructor
  · have hdominated : (wide.dominates? rising (level (2 * 10 ^ 30))).toOption = some true := by
      decide +kernel
    exact ok_of_toOption hdominated
  · refine ⟨[4 * 10 ^ 30], .cons ⟨by decide +kernel, by decide +kernel⟩ .nil, ?_⟩
    norm_num [Cut.slopeExcess, Cut.slopeTolerance, Scalar.ratio_eq, Sense.orient]

end Pool

end Recourse
