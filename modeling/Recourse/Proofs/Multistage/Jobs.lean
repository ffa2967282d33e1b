import Recourse.Proofs.Fraction
import Recourse.Proofs.Schedule
import Recourse.Proofs.Scalar
import Recourse.Multistage.Jobs

/-! How the jobs of an iteration are split and walked, whatever is asked for. The number of workers
may be a number with a fraction, and large numbers are divided in the number system; as long as
rounding keeps the sign, the chunks put together are all jobs in their order, and there is one walk
for each. -/

namespace Recourse

open Run (Keeps Triple)

variable {γ α : Type}

/-! ### Chunks -/

namespace Schedule

variable {n chunk : ℤ} {chunks : List (List ℤ)}

theorem flatten_spans_nil {bounds : List ℤ} (h : bounds.IsChain (· ≥ ·)) :
    (spans bounds).flatten = [] := by
  induction bounds with
  | nil => rfl
  | cons a bounds ih =>
    cases bounds with
    | nil => rfl
    | cons b bounds =>
      obtain ⟨hab, hrest⟩ := List.isChain_cons_cons.mp h
      have hspan : span a b = [] := by
        have hnone : (b - a).toNat = 0 := by omega
        rw [span, hnone]
        rfl
      rw [spans, List.flatten_cons, hspan, ih hrest]
      rfl

theorem bounds_isChain_nonpos (hn : n ≤ 0) (hchunk : chunk ≠ 0) :
    (starts n chunk ++ [n]).IsChain (· ≥ ·) := by
  rcases hchunk.lt_or_gt with hneg | hpos
  · have hstarts : starts n chunk = (List.range (chunkCount (-n) (-chunk))).map
        fun (i : ℕ) => (i : ℤ) * chunk := by
      rw [starts, if_neg (by omega), chunkCount]
    rw [hstarts, List.isChain_append]
    refine ⟨?_, List.isChain_singleton n, ?_⟩
    · rw [List.isChain_map]
      refine List.pairwise_lt_range.isChain.imp fun i j hij => ?_
      exact mul_le_mul_of_nonpos_right (Int.ofNat_le.mpr hij.le) hneg.le
    · intro a ha b hb
      obtain rfl : n = b := by simpa using hb
      obtain ⟨i, hi, rfl⟩ := List.mem_map.mp (List.mem_of_mem_getLast? ha)
      have hlt := lt_of_lt_chunkCount (by omega : 0 < -chunk) (List.mem_range.mp hi)
      rw [mul_neg] at hlt
      omega
  · have hnone : chunkCount n chunk = 0 := by
      have hlt : (n + chunk - 1) / chunk < 1 := (Int.ediv_lt_iff_lt_mul hpos).mpr (by omega)
      unfold chunkCount
      omega
    rw [starts_eq hpos, hnone]
    exact List.isChain_singleton n

/-- Chunks are all jobs in order, as long as their size is not negative where there are jobs. -/
theorem flatten_of_split (hchunk : 0 < n → 0 ≤ chunk) (h : split (α := α) n chunk = .ok chunks) :
    chunks.flatten = span 0 n := by
  unfold split at h
  split_ifs at h with hzero
  rcases le_or_gt n 0 with hn | hn
  · obtain rfl := Except.ok.inj h
    have hnone : (n - 0).toNat = 0 := by omega
    rw [flatten_spans_nil (bounds_isChain_nonpos hn hzero), span, hnone]
    rfl
  · have hpos : 0 < chunk := lt_of_le_of_ne (hchunk hn) (Ne.symm hzero)
    obtain ⟨found, hsplit, hflatten, -⟩ := split_spec (α := α) hn hpos
    rw [split, if_neg hzero] at hsplit
    obtain rfl := Except.ok.inj (hsplit.symm.trans h)
    exact hflatten

end Schedule

namespace Multistage

section

variable [Scalar α] [Numeral α] {jobs workers w : Datum α} {n : ℤ} {chunks : List (List ℤ)}

/-! ### Useful workers -/

theorem exceeds_whole {a b : Datum α} {m n : ℤ} (ha : a.int? = some m) (hb : b.int? = some n) :
    Datum.exceeds a b = .ok (decide (n < m)) := by
  have hnumbers : Datum.compareNumbers? a b = some (some (compare m n)) := by
    cases a <;> cases b <;> simp_all [Datum.compareNumbers?, Datum.int?]
  have horder : Datum.order a b = .ok (some (compare m n)) := by
    cases a <;> cases b <;> simp_all [Datum.order, Datum.int?]
  rw [Datum.exceeds, horder]
  change Except.ok (some (compare m n) == some .gt) = _
  congr 1
  rw [beq_eq_decide]
  exact decide_eq_decide.mpr ((Option.some_inj).trans compare_gt_iff_gt)

theorem exceeds_real {a : Datum α} {m : ℤ} (ha : a.int? = some m) (y : α) :
    Datum.exceeds a (.real y) = .ok (Numeral.compareInt m y == some .gt) := by
  have horder : Datum.order a (.real y) = .ok (Numeral.compareInt m y) := by
    cases a <;> simp_all [Datum.order, Datum.compareNumbers?, Datum.int?]
  rw [Datum.exceeds, horder]
  rfl

/-- The workers of use are a whole number between one and the number of jobs, or a number that is
larger than one. -/
theorem usefulWorkers_cases (hn : jobs.int? = some n) (h : usefulWorkers jobs workers = .ok w) :
    (∃ p, w.int? = some p ∧ 1 ≤ p ∧ p ≤ max 1 n) ∨
      ∃ y, w = .real y ∧ Numeral.compareInt 1 y = some .lt ∧ Numeral.compareInt n y = some .gt := by
  obtain ⟨limited, hlimited, h⟩ := ok_of_bind h
  obtain ⟨fewer, hfewer, hlimited⟩ := ok_of_bind hlimited
  obtain ⟨several, hseveral, h⟩ := ok_of_bind h
  obtain rfl := Except.ok.inj hlimited
  obtain rfl := Except.ok.inj h
  cases several with
  | false => exact .inl ⟨1, rfl, le_rfl, le_max_left 1 n⟩
  | true =>
    rw [if_pos rfl]
    cases fewer with
    | false =>
      rw [if_neg Bool.false_ne_true, exceeds_whole hn rfl] at hseveral
      have hmany : 1 < n := of_decide_eq_true (Except.ok.inj hseveral)
      exact .inl ⟨n, hn, hmany.le, le_max_right 1 n⟩
    | true =>
      rw [if_pos rfl] at hseveral ⊢
      rcases hp : workers.int? with _ | p
      · cases workers with
        | real y =>
          have horder : Datum.order (.real y : Datum α) (.int 1) = .ok
              ((Numeral.compareInt 1 y).map Ordering.swap) := rfl
          rw [Datum.exceeds, horder] at hseveral
          rw [exceeds_real hn] at hfewer
          refine .inr ⟨y, rfl, ?_, by simpa using Except.ok.inj hfewer⟩
          rcases hcompare : Numeral.compareInt 1 y with _ | o
          · rw [hcompare] at hseveral
            cases hseveral
          · rw [hcompare] at hseveral
            cases o with
            | lt => rfl
            | eq => cases hseveral
            | gt => cases hseveral
        | bool b => cases hp
        | int m => cases hp
        | _ => cases hseveral
      · rw [exceeds_whole hp rfl] at hseveral
        rw [exceeds_whole hn hp] at hfewer
        have hmany : 1 < p := of_decide_eq_true (Except.ok.inj hseveral)
        have hless : p < n := of_decide_eq_true (Except.ok.inj hfewer)
        exact .inl ⟨p, rfl, hmany.le, hless.le.trans (le_max_right 1 n)⟩

/-- Where not both numbers are whole, the jobs are: there is a quotient to take the size of the
chunks from. -/
theorem split_of_allocateData (hreal : jobs.int? = none ∨ w.int? = none)
    (h : Schedule.allocateData jobs w = .ok chunks) :
    ∃ n x y q chunk, jobs.int? = some n ∧ jobs.asNumber = .ok x ∧ w.asNumber = .ok y ∧
      Schedule.truncated (x / y) = .ok q ∧
      (chunk = q ∨ chunk = q + 1) ∧ Schedule.split (α := α) n chunk = .ok chunks := by
  have h : (do
      let x ← jobs.asNumber
      let y ← w.asNumber
      if Datum.compareReal (x - y) 1 == some .eq then throw (.kind .number)
      if Scalar.isZero y then throw .zeroDivision
      let q ← Schedule.truncated (x / y)
      jobs.int?.elim (throw (.kind .number)) fun n =>
      Schedule.split n (if Numeral.isMultiple x y then q else q + 1)) =
      Except.ok chunks := by
    rw [← h, Schedule.allocateData]
    rcases hjobs : jobs.int? with _ | n
    · rfl
    · rcases hreal with hreal | hreal
      · rw [hjobs] at hreal
        cases hreal
      · rw [hreal]
        rfl
  obtain ⟨x, hx, h⟩ := ok_of_bind h
  obtain ⟨y, hy, h⟩ := ok_of_bind h
  dsimp only at h
  by_cases hclose : (Datum.compareReal (x - y) 1 == some .eq) = true
  · rw [if_pos hclose] at h
    cases h
  rw [if_neg hclose] at h
  by_cases hzero : Scalar.isZero y = true
  · rw [if_pos hzero] at h
    cases h
  rw [if_neg hzero] at h
  obtain ⟨q, hq, h⟩ := ok_of_bind h
  rcases hjobs : jobs.int? with _ | n
  · rw [hjobs] at h
    cases h
  · rw [hjobs] at h
    refine ⟨n, x, y, q, _, rfl, hx, hy, hq, ?_, h⟩
    split_ifs <;> simp

theorem exists_int_of_allocateData (h : Schedule.allocateData jobs w = .ok chunks) :
    ∃ n, jobs.int? = some n := by
  rcases hn : jobs.int? with _ | n
  · obtain ⟨n, -, -, -, -, hjobs, -⟩ := split_of_allocateData (.inl hn) h
    exact ⟨n, hn ▸ hjobs⟩
  · exact ⟨n, rfl⟩

/-! ### Walks -/

variable [Source γ α]

/-- The walks for a chunk of jobs, one for each job in their order, with the source that belongs to
the chunk. -/
def Walks (γ : Type) [Source γ α] (lp : Solver α) (seed : ℕ) (jobs : List ℤ)
    (walks : List (Trajectory α)) : Prop :=
  walks.length = jobs.length ∧ ∃ P P' : Multistage α,
    (walkChunk lp (γ := γ) (fun _ => Guide.random) seed jobs).on P = (.ok walks, P')

def Walked (γ : Type) [Source γ α] (lp : Solver α) (chunks : List (List ℤ)) (values : List α) :
    Prop :=
  ∃ seed walks, List.Forall₂ (Walks γ lp seed) chunks walks ∧
    values = walks.flatten.map Trajectory.value

variable {lp : Solver α} {values : List α}

omit [Source γ α] in
theorem walkEach_length (lp : Solver α) (guide : ℤ → Guide γ α) (jobs : List ℤ) :
    Triple (fun _ => True) (walkEach lp guide jobs) (fun walks _ => walks.length = jobs.length)
      fun _ => True := by
  induction jobs with
  | nil => exact Triple.pure fun _ _ => rfl
  | cons j jobs ih =>
    refine Triple.bind (Q := fun _ _ => True) Keeps.true fun x => Triple.bind ih fun walks => ?_
    exact Triple.pure fun _ h => congrArg (· + 1) h

theorem walks_of_walkChunk {seed : ℕ} {jobs : List ℤ} {walks : List (Trajectory α)}
    {P P' : Multistage α}
    (h : (walkChunk lp (γ := γ) (fun _ => Guide.random) seed jobs).on P = (.ok walks, P')) :
    Walks γ lp seed jobs walks := by
  refine ⟨?_, P, P', h⟩
  obtain ⟨source, Q, hsource, h⟩ := Run.exists_of_bind h
  have hwalks : ((walkEach lp (fun _ => (Guide.random : Guide γ α)) jobs).on
      { problem := Q, source }).1 = .ok walks :=
    congrArg Prod.fst h
  exact ((walkEach_length lp _ jobs) _ trivial).1 _ _ (Prod.ext hwalks rfl)

theorem Walked.length (h : Walked γ lp chunks values) : values.length = chunks.flatten.length := by
  obtain ⟨seed, walks, hwalks, rfl⟩ := h
  rw [List.length_map, List.length_flatten, List.length_flatten]
  induction hwalks with
  | nil => rfl
  | cons hwalk _ ih => rw [List.map_cons, List.map_cons, List.sum_cons, List.sum_cons, hwalk.1, ih]

theorem limit_of_walkJobs {guide : ℤ → Guide γ α} {seed : ℕ} {limit : Option ℕ}
    {walks : List (Trajectory α)} {P P' : Multistage α}
    (h : (walkJobs lp guide seed jobs workers limit).on P = (.ok walks, P')) :
    limit = none := by
  obtain ⟨chunks, Q, -, h⟩ := Run.exists_of_bind h
  obtain ⟨found, Q', -, h⟩ := Run.exists_of_bind h
  obtain ⟨hlimit, -⟩ := Run.of_breakOff h
  simpa using hlimit

/-- Walking for a number of jobs is walking for the chunks that they are split into, unless it is
broken off. -/
theorem walked_of_walkJobs {seed : ℕ} {limit : Option ℕ} {walks : List (Trajectory α)}
    {P P' : Multistage α}
    (h : (walkJobs lp (γ := γ) (fun _ => Guide.random) seed jobs workers limit).on P =
      (.ok walks, P')) :
    ∃ chunks, Schedule.allocateData jobs workers = .ok chunks ∧
      Walked γ lp chunks (walks.map Trajectory.value) := by
  obtain rfl := limit_of_walkJobs h
  obtain ⟨chunks, Q, hchunks, h⟩ := Run.exists_of_bind h
  obtain ⟨found, Q', hfound, h⟩ := Run.exists_of_bind h
  obtain ⟨-, h⟩ := Run.of_breakOff h
  cases h
  obtain ⟨parts, Q', hparts, h⟩ := Run.exists_of_bind hfound
  cases h
  have hwalks : Triple (fun _ => True)
      (chunks.mapM (walkChunk lp (γ := γ) (fun _ => Guide.random) seed))
      (fun parts _ => True ∧ List.Forall₂ (Walks γ lp seed) chunks parts) fun _ => True :=
    Triple.mapM fun jobs _ _ _ =>
      ⟨fun _ _ hrun => ⟨trivial, walks_of_walkChunk hrun⟩, fun _ _ _ => trivial⟩
  exact ⟨chunks, congrArg Prod.fst hchunks, seed, parts, ((hwalks Q trivial).1 _ _ hparts).2, rfl⟩

end

end Multistage

/-! ### Numbers -/

section

variable [Scalar α] [Numeral α]

/-- What splitting jobs relies on of the numbers: a share of a number that is not negative is not
negative, whatever the rounding, be it among as many workers as a whole number says or among as many
as a number above one says. -/
structure Numeral.Faithful (α : Type) [Scalar α] [Numeral α] : Prop where
  quotient : ∀ (m n : ℤ) (x : α) (q : ℤ), 0 ≤ m → 0 < n → Numeral.ofQuotient? m n = some x →
    Numeral.truncate? x = some q → 0 ≤ q
  share : ∀ (m : ℤ) (x y : α) (q : ℤ), 0 ≤ m → Numeral.ofInt? m = some x →
    Numeral.compareInt 1 y = some .lt →
    Numeral.truncate? (x / y) = some q → 0 ≤ q

theorem Schedule.truncate_of_truncated {x : α} {q : ℤ} (h : truncated x = .ok q) :
    Numeral.truncate? x = some q := by
  unfold truncated at h
  split at h
  · rwa [← Except.ok.inj h]
  · split_ifs at h

variable (hα : Numeral.Faithful α)
include hα

theorem Numeral.Faithful.quotient_nonneg {m n q : ℤ} (hm : 0 ≤ m) (hn : 0 < n)
    (h : Schedule.quotient (α := α) m n = .ok q) : 0 ≤ q := by
  unfold Schedule.quotient at h
  split_ifs at h
  · obtain rfl := Except.ok.inj h
    exact Int.tdiv_nonneg hm hn.le
  · split at h
    · exact hα.quotient m n _ q hm hn ‹_› (Schedule.truncate_of_truncated h)
    · cases h

namespace Multistage

variable {jobs workers w : Datum α} {n : ℤ} {chunks : List (List ℤ)}

/-- Among the workers of use, jobs are split into chunks that put together are all jobs in order. -/
theorem flatten_of_allocateData (hn : jobs.int? = some n) (hw : usefulWorkers jobs workers = .ok w)
    (h : Schedule.allocateData jobs w = .ok chunks) : chunks.flatten = Schedule.span 0 n := by
  obtain ⟨p, hp, hone, hmany⟩ | ⟨y, rfl, hy, hny⟩ := usefulWorkers_cases hn hw
  · have h : Schedule.allocate (α := α) n p = .ok chunks := by
      rw [← h, Schedule.allocateData, hn, hp]
    rcases le_or_gt n 0 with hnone | hpos
    · rw [max_eq_left (by omega)] at hmany
      rw [Schedule.allocate_of_ne (by omega) (by omega)] at h
      obtain ⟨q, -, h⟩ := ok_of_bind h
      exact Schedule.flatten_of_split (α := α) (fun hpos => absurd hpos hnone.not_gt) h
    · have hpn : p ≤ n := hmany.trans (max_le (by omega) le_rfl)
      exact Schedule.flatten_of_allocate hone hpn
        (fun q => hα.quotient_nonneg (by omega) (by omega)) h
  · obtain ⟨n', x, _, q, chunk, hn', hx, hy', hq, hchunk, h⟩ := split_of_allocateData (.inr rfl) h
    obtain rfl : n = n' := Option.some.inj (hn.symm.trans hn')
    obtain rfl := Except.ok.inj hy'
    refine Schedule.flatten_of_split (α := α) (fun hpos => ?_) h
    have hq0 : 0 ≤ q := by
      cases jobs with
      | bool b =>
        cases b with
        | true =>
          -- one job is not more than the workers are
          obtain rfl : 1 = n := Option.some.inj hn
          rw [hy] at hny
          cases hny
        | false =>
          obtain rfl : 0 = n := Option.some.inj hn
          exact absurd hpos (lt_irrefl 0)
      | int m =>
        obtain rfl := Option.some.inj hn
        change Datum.ofWhole m = .ok x at hx
        unfold Datum.ofWhole at hx
        split at hx
        · obtain rfl := Except.ok.inj hx
          exact hα.share m _ y q hpos.le ‹_› hy (Schedule.truncate_of_truncated hq)
        · cases hx
      | _ => cases hn
    omega

end Multistage

end

theorem Numeral.faithful_rat : Numeral.Faithful ℚ := by
  have htruncate {x : ℚ} {q : ℤ} (hx : 0 ≤ x) (hq : Numeral.truncate? x = some q) : 0 ≤ q := by
    obtain rfl : ⌊x⌋ = q := by simpa [Numeral.truncate?, hx] using hq
    exact Int.floor_nonneg.mpr hx
  constructor
  · intro m n x q hm hn hx hq
    obtain rfl : (m / n : ℚ) = x := by simpa [Numeral.ofQuotient?] using hx
    have hm' : (0 : ℚ) ≤ m := by exact_mod_cast hm
    have hn' : (0 : ℚ) < n := by exact_mod_cast hn
    exact htruncate (by positivity) hq
  · intro m x y q hm hx hy hq
    obtain rfl : (m : ℚ) = x := by simpa [Numeral.ofInt?] using hx
    have hm' : (0 : ℚ) ≤ m := by exact_mod_cast hm
    have hy' : (1 : ℚ) < y := by
      simp only [Numeral.compareInt, Option.some.injEq] at hy
      split_ifs at hy with hlt
      simpa using hlt
    exact htruncate (by positivity) hq

end Recourse
