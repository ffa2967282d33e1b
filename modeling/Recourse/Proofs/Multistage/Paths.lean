import Recourse.Proofs.Multistage.Tree

/-! The paths of the scenario tree. They are enumerated level by level, which is to say that each
step is followed by the continuations after it; and they are the paths that can be drawn, none of
which is enumerated twice. -/

namespace Recourse.Multistage

open RiskMeasure (Distribution)
open Source (Lawful)

variable {α γ : Type}

section

variable [Scalar α]

def continuations (p : Multistage α) : ℕ → ℕ → ℤ → List ScenarioPath
  | 0, _, _ => [[]]
  | n + 1, t, j => (p.successors t j).flatMap
      fun step => (p.continuations n (t + 1) step.1).map (step :: ·)

def drawFrom [Source γ α] (p : Multistage α) : ℕ → ℕ → ℤ → Run α γ ScenarioPath
  | 0, _, _ => pure []
  | n + 1, t, j => do
    let step ← p.drawStage t j
    return step :: (← p.drawFrom n (t + 1) step.1)

def drawPath [Source γ α] (p : Multistage α) : Run α γ ScenarioPath := p.drawFrom p.horizon 0 0

/-! ### Enumeration -/

private theorem foldl_extend (p : Multistage α) (n t : ℕ) (paths : List ScenarioPath) :
    (List.range' t n).foldl (fun paths t => paths.flatMap (p.extend (t + 1))) paths =
      paths.flatMap fun path =>
        (p.continuations n (t + 1) ((path.getLast?.map (·.1)).getD 0)).map (path ++ ·) := by
  induction n generalizing t paths with
  | zero => simp [continuations]
  | succ n ih =>
    rw [List.range'_succ, List.foldl_cons, ih, List.flatMap_assoc]
    congr 1
    funext path
    rw [extend, List.flatMap_map, continuations, List.map_flatMap]
    congr 1
    funext step
    simp [List.map_map, Function.comp_def]

/-- Enumerating level by level is enumerating what follows on each step. -/
theorem paths_eq (p : Multistage α) : p.paths = (p.continuations (p.horizon - 1) 1 0).map
    ((0, 0) :: ·) := by
  rw [paths, List.range_eq_range', foldl_extend]
  simp

theorem length_of_mem_continuations {p : Multistage α} {n t : ℕ} {j : ℤ} {path : ScenarioPath}
    (h : path ∈ p.continuations n t j) : path.length = n := by
  induction n generalizing t j path with
  | zero =>
    obtain rfl := List.mem_singleton.mp h
    rfl
  | succ n ih =>
    obtain ⟨step, -, h⟩ := List.mem_flatMap.mp h
    obtain ⟨rest, hrest, rfl⟩ := List.mem_map.mp h
    rw [List.length_cons, ih hrest]

/-! ### Samples -/

variable [Source γ α] {g : γ}

theorem probabilities_none {m : Stage α} (h : m.probability = none) :
    m.probabilities = List.replicate m.sampleCount (Scalar.ratio 1 m.sampleCount) := by
  simp [Stage.probabilities, h]

theorem drawSample_none {m : Stage α} (h : m.probability = none) :
    (drawSample m : Run α γ ℕ) = Source.draw m.sampleCount := by
  rw [drawSample, h]

theorem drawSample_some {m : Stage α} {q : List α} (h : m.probability = some q) :
    (drawSample m : Run α γ ℕ) = Source.choose m.sampleCount q := by
  rw [drawSample, h]

theorem drawStage_on {p : Multistage α} {m : Stage α} {t j k s : ℕ} {g₁ g₂ : γ}
    (hstate : (p.drawState (t + 1 : ℕ) j).on g = (.ok k, g₁)) (hm : p.model (t + 1 : ℕ) k = .ok m)
    (hsample : (drawSample m).on g₁ = (.ok s, g₂)) :
    (p.drawStage (t + 1) j).on g = (.ok (↑k, ↑s), g₂) := by
  unfold drawStage
  rw [Run.bind_ok _ hstate, if_neg (Nat.succ_ne_zero t), hm, Run.bind_ok _ (Run.ofExcept_on _ g₁),
    Run.bind_ok _ hsample]
  rfl

end

variable [Field α] [LinearOrder α] [IsStrictOrderedRing α] {p : Multistage α} {m : Stage α}

omit [IsStrictOrderedRing α] in
theorem sampleCount_pos (h : Distribution m.probabilities)
    (hlength : m.probabilities.length = m.sampleCount) :
    0 < m.sampleCount := by
  rw [← hlength, List.length_pos_iff]
  intro hnil
  have hsum := h.sum
  rw [hnil, List.sum_nil] at hsum
  exact zero_ne_one hsum

theorem exists_drawSample [Source γ α] (hg : Lawful γ) (h : Distribution m.probabilities)
    (hlength : m.probabilities.length = m.sampleCount) (g : γ) :
    ∃ s g', (drawSample m).on g = (.ok s, g') ∧ 0 < m.probabilities.getD s 0 := by
  have hcount := sampleCount_pos h hlength
  rcases hm : m.probability with _ | q
  · have hpos {s : ℕ} (hs : s < m.sampleCount) : 0 < m.probabilities.getD s 0 := by
      rw [probabilities_none hm, List.getD_eq_getElem?_getD, List.getElem?_replicate, if_pos hs,
        Option.getD_some,
        Scalar.ratio_eq]
      positivity
    rw [drawSample_none hm]
    rcases Nat.eq_or_lt_of_le (Nat.succ_le_of_lt hcount) with hone | hmany
    · rw [← hone] at hpos ⊢
      exact ⟨0, g, rfl, hpos Nat.zero_lt_one⟩
    · exact ⟨_, _, Source.draw_on hmany, hpos (hg.below _ g hcount)⟩
  · obtain rfl : m.probabilities = q := by simp [Stage.probabilities, hm]
    obtain ⟨hx, hx'⟩ := hg.uniform g
    rw [drawSample_some hm]
    refine ⟨_, _, Source.choose_on hcount.ne' (hlength ▸ Source.isDistribution_of_sum h), ?_⟩
    apply Source.position_pos h.nonneg _ hx hx'
    rw [h.sum]
    exact zero_lt_one

theorem exists_tape_drawSample (h : Distribution m.probabilities)
    (hlength : m.probabilities.length = m.sampleCount) {s : ℕ} (hs : 0 < m.probabilities.getD s 0) :
    ∃ tape : Tape α, ∀ rest : Tape α,
      (drawSample m).on (tape ++ rest) = (.ok s, rest) := by
  have hcount := sampleCount_pos h hlength
  have hslt : s < m.sampleCount := by
    by_contra hlast
    simp [List.getElem?_eq_none (hlength ▸ not_lt.mp hlast)] at hs
  rcases hm : m.probability with _ | q
  · rw [drawSample_none hm]
    rcases Nat.eq_or_lt_of_le (Nat.succ_le_of_lt hcount) with hone | hmany
    · obtain rfl : s = 0 := by omega
      refine ⟨[], fun rest => ?_⟩
      rw [← hone]
      rfl
    · refine ⟨[(⟨0, le_rfl, zero_lt_one⟩, s)], fun rest => ?_⟩
      rw [Source.draw_on hmany]
      exact Prod.ext (congrArg Except.ok (Nat.mod_eq_of_lt hslt)) rfl
  · obtain rfl : m.probabilities = q := by simp [Stage.probabilities, hm]
    obtain ⟨x, hx, hx', hposition⟩ := Source.exists_position h.nonneg hs
    rw [drawSample_some hm]
    refine ⟨[(⟨x, hx, hx'⟩, 0)], fun rest => ?_⟩
    rw [Source.choose_on hcount.ne' (hlength ▸ Source.isDistribution_of_sum h)]
    exact Prod.ext (congrArg Except.ok hposition) rfl

/-! ### Steps -/

section

variable [Numeral α] (hp : p.Charted) (hs : p.Stochastic)
include hp hs

theorem Charted.exists_drawStage [Source γ α] (hg : Lawful γ) {t j : ℕ} (ht : t + 1 < p.horizon)
    (hj : j ∈ p.reachableStates t) (g : γ) :
    ∃ step ∈ p.successors (t + 1 : ℕ) j, ∃ g', (p.drawStage (t + 1) j).on g = (.ok step, g') := by
  have hmoves := hs.moves t j ht hj
  have hne : (p.moves (t + 1) j).length ≠ 0 := by
    intro hnil
    have hsum := hmoves.sum
    rw [List.length_eq_zero_iff.mp hnil, List.sum_nil] at hsum
    exact zero_ne_one hsum
  have hstate := hp.drawState_on ht hj (g := g)
  rw [Source.choose_on hne (Source.isDistribution_of_sum hmoves)] at hstate
  have hpos := hp.pos_of_drawState hg ht hj hstate
  have hk := (hp.mem_reachableStates_succ ht).mpr ⟨j, hj, hpos⟩
  obtain ⟨m, hm, hmodel⟩ := hp.exists_model (hp.lt_counts hk).2
  obtain ⟨hdist, hlength⟩ := hs.samples (t + 1) _ m hk hm
  obtain ⟨s, g', hsample, hspos⟩ := exists_drawSample hg hdist hlength (Source.uniform g).2
  refine ⟨_, (hp.mem_successors ht hj).mpr ⟨_, s, rfl, hpos, ?_⟩, g',
    drawStage_on hstate hmodel hsample⟩
  rw [probabilitiesAt, hm]
  exact hspos.ne'

theorem Charted.exists_tape_drawStage {t j : ℕ} (ht : t + 1 < p.horizon)
    (hj : j ∈ p.reachableStates t) {step : ℤ × ℤ} (hstep : step ∈ p.successors (t + 1 : ℕ) j) :
    ∃ tape : Tape α, ∀ rest : Tape α,
      (p.drawStage (t + 1) j).on (tape ++ rest) = (.ok step, rest) := by
  obtain ⟨k, s, rfl, hpos, hne⟩ := (hp.mem_successors ht hj).mp hstep
  have hk := (hp.mem_reachableStates_succ ht).mpr ⟨j, hj, hpos⟩
  obtain ⟨m, hm, hmodel⟩ := hp.exists_model (hp.lt_counts hk).2
  obtain ⟨hdist, hlength⟩ := hs.samples (t + 1) k m hk hm
  rw [probabilitiesAt, hm] at hne
  obtain ⟨tape, htape⟩ := exists_tape_drawSample hdist hlength
    ((hdist.getD_nonneg s).lt_of_ne hne.symm)
  have hmoves := hs.moves t j ht hj
  obtain ⟨x, hx, hx', hposition⟩ := Source.exists_position hmoves.nonneg (k := k) hpos
  refine ⟨(⟨x, hx, hx'⟩, 0) :: tape, fun rest => ?_⟩
  have hkn : (p.moves (t + 1) j).length ≠ 0 := by
    intro hnil
    change 0 < (p.moves (t + 1) j).getD k 0 at hpos
    rw [List.length_eq_zero_iff.mp hnil] at hpos
    simp at hpos
  have hstate := hp.drawState_on ht hj (g := (⟨x, hx, hx'⟩, 0) :: (tape ++ rest))
  rw [Source.choose_on hkn (Source.isDistribution_of_sum hmoves)] at hstate
  have hdrawn : (p.drawState (t + 1 : ℕ) j).on
      ((⟨x, hx, hx'⟩, 0) :: (tape ++ rest) : Tape α) = (.ok k, tape ++ rest) :=
    hstate.trans (Prod.ext (congrArg Except.ok hposition) rfl)
  exact drawStage_on hdrawn hmodel (htape rest)

/-! ### Paths -/

/-- Whatever a source answers, a path is drawn, and it is one of those enumerated. -/
theorem Charted.exists_drawFrom [Source γ α] (hg : Lawful γ) {n t j : ℕ} (hn : t + n < p.horizon)
    (hj : j ∈ p.reachableStates t) (g : γ) :
    ∃ path ∈ p.continuations n (t + 1) j, ∃ g', (p.drawFrom n (t + 1) j).on g = (.ok path, g') := by
  induction n generalizing t j g with
  | zero => exact ⟨[], List.mem_singleton_self _, g, rfl⟩
  | succ n ih =>
    have ht : t + 1 < p.horizon := by omega
    obtain ⟨step, hstep, g₁, hdraw⟩ := hp.exists_drawStage hs hg ht hj g
    obtain ⟨k, s, rfl, hk⟩ := hp.reachable_of_mem_successors ht hj hstep
    obtain ⟨rest, hrest, g₂, hdraws⟩ := ih (by omega) hk g₁
    refine ⟨(↑k, ↑s) :: rest, List.mem_flatMap.mpr
      ⟨_, hstep, List.mem_map.mpr ⟨rest, hrest, rfl⟩⟩, g₂, ?_⟩
    rw [drawFrom, Run.bind_ok _ hdraw, Run.bind_ok _ hdraws]
    rfl

/-- Each path that is enumerated can be drawn. -/
theorem Charted.exists_tape_drawFrom {n t j : ℕ} (hn : t + n < p.horizon)
    (hj : j ∈ p.reachableStates t) {path : ScenarioPath}
    (hpath : path ∈ p.continuations n (t + 1) j) :
    ∃ tape : Tape α, ∀ rest : Tape α,
      (p.drawFrom n (t + 1) j).on (tape ++ rest) = (.ok path, rest) := by
  induction n generalizing t j path with
  | zero =>
    obtain rfl := List.mem_singleton.mp hpath
    exact ⟨[], fun rest => rfl⟩
  | succ n ih =>
    have ht : t + 1 < p.horizon := by omega
    obtain ⟨step, hstep, hpath⟩ := List.mem_flatMap.mp hpath
    obtain ⟨later, hlater, rfl⟩ := List.mem_map.mp hpath
    obtain ⟨first, hfirst⟩ := hp.exists_tape_drawStage hs ht hj hstep
    obtain ⟨k, s, rfl, hk⟩ := hp.reachable_of_mem_successors ht hj hstep
    obtain ⟨second, hsecond⟩ := ih (by omega) hk hlater
    refine ⟨first ++ second, fun rest => ?_⟩
    rw [drawFrom, List.append_assoc, Run.bind_ok _ (hfirst _), Run.bind_ok _ (hsecond rest)]
    rfl

omit hs in
/-- No path is enumerated twice. -/
theorem Charted.nodup_continuations {n t j : ℕ} (hn : t + n < p.horizon)
    (hj : j ∈ p.reachableStates t) :
    (p.continuations n (t + 1) j).Nodup := by
  induction n generalizing t j with
  | zero => exact List.nodup_singleton _
  | succ n ih =>
    have ht : t + 1 < p.horizon := by omega
    rw [continuations, List.nodup_flatMap]
    constructor
    · intro step hstep
      obtain ⟨k, s, rfl, hk⟩ := hp.reachable_of_mem_successors ht hj hstep
      exact (ih (by omega) hk).map fun _ _ h => (List.cons.inj h).2
    · refine (hp.nodup_successors ht hj).imp fun {step step'} hne path hpath hpath' => ?_
      obtain ⟨rest, -, rfl⟩ := List.mem_map.mp hpath
      obtain ⟨rest', -, h⟩ := List.mem_map.mp hpath'
      exact hne (List.cons.inj h).1.symm

omit hs in
theorem Charted.start_mem : 0 ∈ p.reachableStates 0 ∧ 0 + (p.horizon - 1) < p.horizon := by
  rw [hp.reachableStates_zero]
  have := hp.horizon
  exact ⟨List.mem_singleton_self 0, by omega⟩

omit hs [IsStrictOrderedRing α] in
theorem Charted.length_of_mem_paths {path : ScenarioPath} (h : path ∈ p.paths) :
    path.length = p.horizon := by
  rw [paths_eq] at h
  obtain ⟨rest, hrest, rfl⟩ := List.mem_map.mp h
  have := hp.horizon
  rw [List.length_cons, length_of_mem_continuations hrest]
  omega

omit hs in
theorem Charted.nodup_paths : p.paths.Nodup := by
  obtain ⟨hstart, hn⟩ := hp.start_mem
  rw [paths_eq]
  exact (hp.nodup_continuations hn hstart).map fun _ _ h => (List.cons.inj h).2

omit hs [IsStrictOrderedRing α] in
private theorem Charted.drawPath_on [Source γ α] {path : ScenarioPath} {g g' : γ}
    (h : (p.drawFrom (p.horizon - 1) (0 + 1) 0).on g = (.ok path, g')) :
    p.drawPath.on g = (.ok ((0, 0) :: path), g') := by
  have hhorizon : p.horizon = p.horizon - 1 + 1 := by have := hp.horizon; omega
  rw [drawPath, hhorizon, drawFrom, Run.bind_ok _ (drawStage_zero p 0 g), Run.bind_ok _ h]
  rfl

theorem Charted.exists_drawPath [Source γ α] (hg : Lawful γ) (g : γ) :
    ∃ path ∈ p.paths, ∃ g', p.drawPath.on g = (.ok path, g') := by
  obtain ⟨hstart, hn⟩ := hp.start_mem
  obtain ⟨path, hpath, g', hdraw⟩ := hp.exists_drawFrom hs hg hn hstart g
  refine ⟨(0, 0) :: path, ?_, g', hp.drawPath_on hdraw⟩
  rw [paths_eq]
  exact List.mem_map.mpr ⟨path, hpath, rfl⟩

/-- The paths are those that can be drawn. -/
theorem Charted.mem_paths_iff {path : ScenarioPath} :
    path ∈ p.paths ↔ ∃ g g' : Tape α, p.drawPath.on g = (.ok path, g') := by
  constructor
  · intro hpath
    obtain ⟨hstart, hn⟩ := hp.start_mem
    rw [paths_eq] at hpath
    obtain ⟨later, hlater, rfl⟩ := List.mem_map.mp hpath
    obtain ⟨tape, htape⟩ := hp.exists_tape_drawFrom hs hn hstart hlater
    exact ⟨tape ++ [], [], hp.drawPath_on (htape [])⟩
  · rintro ⟨g, g', hdraw⟩
    obtain ⟨path', hpath', g'', hdraw'⟩ := hp.exists_drawPath hs Tape.lawful g
    obtain rfl := Except.ok.inj (congrArg Prod.fst (hdraw.symm.trans hdraw'))
    exact hpath'

end

end Recourse.Multistage
