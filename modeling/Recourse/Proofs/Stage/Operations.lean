import Recourse.Proofs.Cut.Pool
import Recourse.Proofs.Stage.Joined

/-! The operations of a pass on a joined model, one triple for each. Entering a scenario and
incoming values fixes the right-hand sides of the random rows and of the links; attaching cuts adds
rows of valid cuts; solving changes nothing but the solution. -/

namespace Recourse.Junction

open Run (Triple)

variable {α : Type} [Field α] [LinearOrder α] [Numeral α]
variable {j : Junction α} {B B' : Row α → α → Prop} {L L' : ℕ → α → Prop} {E : Stage α → Prop}

/-! ### Right-hand sides -/

theorem putRhs_triple {a : ℕ × α} (ha : a.1 < j.base.issued ∨ a.1 ∈ j.ids)
    (hB : ∀ r₀ ∈ j.base.rows, ∀ v, B r₀ v → B' r₀ (rhsAfter [a] r₀.id v))
    (hL : ∀ i id, j.ids[i]? = some id → ∀ v, L i v → L' i (rhsAfter [a] id v)) :
    Triple (j.Joined B L) (Stage.putRhs a.1 a.2) (fun _ => j.Joined B' L') E := by
  intro m hm
  have hrow (r : Row α) : (if r.id = a.1 then { r with rhs := a.2 } else r) = r.assign [a] := by
    by_cases hid : r.id = a.1
    · simp [Row.assign, rhsAfter, hid]
    · simp [Row.assign, rhsAfter, hid, Ne.symm hid]
  have hput : (Stage.putRhs a.1 a.2).on m =
      (.ok (),
      { m with rows := m.rows.map (Row.assign [a]), status := .pending, solution := none }) := by
    simp [Run.on, Stage.putRhs, Stage.discard, hrow]
  rw [hput]
  refine ⟨fun _ m' hrun => ?_, fun e m' hrun => ?_⟩ <;> cases hrun
  refine (hm.assign ?_ hB hL).withSolution .pending none
  intro b hb
  rwa [List.mem_singleton.mp hb]

theorem putAll_triple {as : List (ℕ × α)} (has : ∀ a ∈ as, a.1 < j.base.issued ∨ a.1 ∈ j.ids)
    (hB : ∀ r₀ ∈ j.base.rows, ∀ v, B r₀ v → B' r₀ (rhsAfter as r₀.id v))
    (hL : ∀ i id, j.ids[i]? = some id → ∀ v, L i v → L' i (rhsAfter as id v)) :
    Triple (j.Joined B L) (as.forM fun a => Stage.putRhs a.1 a.2) (fun _ => j.Joined B' L') E := by
  induction as generalizing B L with
  | nil => exact Triple.pure fun m hm => hm.mono hB hL
  | cons a as ih =>
    let B₁ (r₀ : Row α) (w : α) : Prop := ∃ v, B r₀ v ∧ w = rhsAfter [a] r₀.id v
    let L₁ (i : ℕ) (w : α) : Prop := ∃ v id, j.ids[i]? = some id ∧ L i v ∧ w = rhsAfter [a] id v
    have hone : Triple (j.Joined B L) (Stage.putRhs a.1 a.2) (fun _ => j.Joined B₁ L₁) E :=
      putRhs_triple (has a (by simp)) (fun r₀ _ v hv => ⟨v, hv, rfl⟩) fun i id hi v hv =>
        ⟨v, id, hi, hv, rfl⟩
    refine Triple.bind hone fun _ => ih (fun b hb => has b (by simp [hb])) ?_ ?_
    · rintro r₀ hr₀ _ ⟨v, hv, rfl⟩
      rw [← rhsAfter_append]
      exact hB r₀ hr₀ v hv
    · rintro i id hi _ ⟨v, id', hi', hv, rfl⟩
      obtain rfl := Option.some.inj (hi.symm.trans hi')
      rw [← rhsAfter_append]
      exact hL i id hi v hv

theorem setRhs_triple {id : ℕ} {x : α} (ha : id < j.base.issued ∨ id ∈ j.ids)
    (hB : ∀ r₀ ∈ j.base.rows, ∀ v, B r₀ v → B' r₀ (rhsAfter [(id, x)] r₀.id v))
    (hL : ∀ i k, j.ids[i]? = some k → ∀ v, L i v → L' i (rhsAfter [(id, x)] k v)) :
    Triple (j.Joined B L) (Stage.setRhs id x) (fun _ => j.Joined B' L') (j.Joined B L) := by
  unfold Stage.setRhs
  split_ifs
  · exact Triple.throw_bind fun _ hs => hs
  · exact putRhs_triple (a := (id, x)) ha hB hL

theorem setRhsAll_triple {ids : List ℕ} {xs : List α}
    (has : ∀ a ∈ ids.zip xs, a.1 < j.base.issued ∨ a.1 ∈ j.ids)
    (hB : ∀ r₀ ∈ j.base.rows, ∀ v, B r₀ v → B' r₀ (rhsAfter (ids.zip xs) r₀.id v))
    (hL : ∀ i id, j.ids[i]? = some id → ∀ v, L i v → L' i (rhsAfter (ids.zip xs) id v)) :
    Triple (j.Joined B L) (Stage.setRhsAll ids xs)
      (fun _ m => j.Joined B' L' m ∧ ids.length = xs.length) (j.Joined B L) := by
  unfold Stage.setRhsAll
  split_ifs with h
  · exact Triple.throw_bind fun _ hs => hs
  · have hlen : ids.length = xs.length := by
      by_contra hne
      simp [hne] at h
    exact (putAll_triple has hB hL).and_pure hlen

/-! ### Scenarios -/

def InScenario (j : Junction α) (k : ℕ) (r₀ : Row α) (v : α) : Prop :=
  v = rhsAfter (j.base.assignments k) r₀.id r₀.rhs

/-- A model at rest: nothing is known of the scenario that was entered last. -/
abbrev AtRest (j : Junction α) (L : ℕ → α → Prop) (m : Stage α) : Prop := j.Joined j.Loose L m

theorem Joined.atRest {as : List (ℕ × α)} (has : ∀ a ∈ as, a.1 ∈ j.randomRows) {m : Stage α}
    (h : j.Joined (j.After as) L m) : j.AtRest L m :=
  h.mono (fun _ _ _ hw => hw.loose has) fun _ _ _ _ hv => hv

/-- Once all random rows have their right-hand sides, it does not matter what they were before. -/
theorem Joined.inScenario {k : ℕ} {m : Stage α}
    (hall : (j.base.assignments k).map (·.1) = j.randomRows)
    (h : j.Joined (j.After (j.base.assignments k)) L m) : j.Joined (j.InScenario k) L m := by
  refine h.mono (fun r₀ _ w hw => ?_) fun i id _ v hv => hv
  obtain ⟨v, rfl | hmem, rfl⟩ := hw
  · rfl
  · exact rhsAfter_congr (hall ▸ hmem)

theorem enterSample_triple (hj : j.Sound) {k : ℤ} {e : RandomRhs α} (he : e ∈ j.base.random)
    {pre : List (ℕ × α)} :
    Triple (j.Joined (j.After pre) L) (Stage.enterSample k e)
      (fun _ m => ∃ as, as.map (·.1) = e.rows ∧ (∀ n : ℕ, k = n → as = e.assignments n) ∧
        j.Joined (j.After (pre ++ as)) L m)
      (j.Joined (j.After pre) L) := by
  have hrandom (id : ℕ) (hid : id ∈ e.rows) : id ∈ j.randomRows := List.mem_flatMap.mpr ⟨e, he, hid⟩
  cases e with
  | single row samples =>
    refine Triple.bind (Q := fun x m => j.Joined (j.After pre) L m ∧ entryFrom samples k = .ok x)
      (Triple.ofExcept (fun m x hm hx => ⟨hm, hx⟩) fun m hm => hm) fun x =>
      Triple.of_and fun hx => ?_
    have has : ∀ a ∈ [(row, x)], a.1 ∈ j.randomRows := by
        simpa using hrandom row (by simp [RandomRhs.rows])
    have hset : Triple (j.Joined (j.After pre) L) (Stage.setRhs row x)
        (fun _ => j.Joined (j.After (pre ++ [(row, x)])) L) (j.Joined (j.After pre) L) :=
      setRhs_triple (.inl (hj.random_lt (has (row, x) (by simp)))) (fun r₀ _ v hv => hv.append _)
        fun i id hi v hv => (hj.rhsAfter_link has hi v).symm ▸ hv
    refine hset.conseq (fun _ hm => hm) (fun _ m hm => ⟨[(row, x)], rfl, fun n hn => ?_, hm⟩)
      fun _ hm => hm
    rw [hn, entryFrom_natCast] at hx
    simp [RandomRhs.assignments, entryAt_ok hx]
  | block rows samples =>
    refine Triple.bind (Q := fun x m => j.Joined (j.After pre) L m ∧ entryFrom samples k = .ok x)
      (Triple.ofExcept (fun m x hm hx => ⟨hm, hx⟩) fun m hm => hm) fun xs =>
      Triple.of_and fun hx => ?_
    have has : ∀ a ∈ rows.zip xs,
        a.1 ∈ j.randomRows := fun a ha => hrandom a.1 (List.of_mem_zip ha).1
    have hset : Triple (j.Joined (j.After pre) L) (Stage.setRhsAll rows xs)
        (fun _ m => j.Joined (j.After (pre ++ rows.zip xs)) L m ∧ rows.length = xs.length)
        (j.Joined (j.After pre) L) :=
      setRhsAll_triple (fun a ha => .inl (hj.random_lt (has a ha))) (fun r₀ _ v hv => hv.append _)
        fun i id hi v hv => (hj.rhsAfter_link has hi v).symm ▸ hv
    refine hset.conseq (fun _ hm => hm) (fun _ m hm => ⟨rows.zip xs, ?_, fun n hn => ?_, hm.1⟩)
      fun _ hm => hm
    · exact List.map_fst_zip hm.2.le
    · rw [hn, entryFrom_natCast] at hx
      simp [RandomRhs.assignments, entryAt_ok hx]

/-- Entering the samples of several random right-hand sides. A failure may come after some of
them. -/
private theorem enterSamples_triple (hj : j.Sound) {d : Datum α} {es : List (RandomRhs α)}
    (hes : ∀ e ∈ es, e ∈ j.base.random) (pre : List (ℕ × α))
    (hpre : ∀ a ∈ pre, a.1 ∈ j.randomRows) :
    Triple (j.Joined (j.After pre) L)
      (es.forM fun e => do Stage.enterSample (← Run.ofExcept d.asWhole) e)
      (fun _ m => ∃ as, as.map (·.1) = es.flatMap RandomRhs.rows ∧
        (∀ n : ℕ, d = .int n → as = es.flatMap (RandomRhs.assignments n)) ∧
        j.Joined (j.After (pre ++ as)) L m)
      (j.AtRest L) := by
  induction es generalizing pre with
  | nil => exact Triple.pure fun m hm => ⟨[], rfl, fun _ _ => rfl, by rwa [List.append_nil]⟩
  | cons e es ih =>
    have he : e ∈ j.base.random := hes e (by simp)
    have hhead : Triple (j.Joined (j.After pre) L)
        (do Stage.enterSample (← Run.ofExcept d.asWhole) e)
        (fun _ m => ∃ as, as.map (·.1) = e.rows ∧ (∀ n : ℕ, d = .int n → as = e.assignments n) ∧
          j.Joined (j.After (pre ++ as)) L m) (j.AtRest L) := by
      refine Triple.bind (Q := fun k m => j.Joined (j.After pre) L m ∧ d.asWhole = .ok k)
        (Triple.ofExcept (fun m k hm hk => ⟨hm, hk⟩) fun m hm => hm.atRest hpre) fun k =>
        Triple.of_and fun hk => ?_
      refine (enterSample_triple hj he).conseq (fun _ hm => hm) ?_ fun _ hm => hm.atRest hpre
      rintro _ m ⟨as, hrows, hexact, hm⟩
      refine ⟨as, hrows, fun n hn => hexact n ?_, hm⟩
      subst hn
      exact (Except.ok.inj hk).symm
    refine Triple.bind hhead fun _ m hm => ?_
    obtain ⟨as, hrows, hexact, hm⟩ := hm
    have hpre' : ∀ a ∈ pre ++ as, a.1 ∈ j.randomRows := by
      intro a ha
      rcases List.mem_append.mp ha with ha | ha
      · exact hpre a ha
      · exact List.mem_flatMap.mpr ⟨e, he, hrows ▸ List.mem_map_of_mem ha⟩
    refine (ih (fun e' he' => hes e' (by simp [he'])) _ hpre').conseq (fun _ hm => hm) ?_
      (fun _ hm => hm) m hm
    rintro _ m' ⟨as', hrows', hexact', hm'⟩
    refine ⟨as ++ as', by simp [hrows, hrows'], fun n hn => ?_, by rwa [← List.append_assoc]⟩
    rw [hexact n hn, hexact' n hn, List.flatMap_cons]

theorem Joined.random_eq {m : Stage α} (h : j.Joined B L m) : m.random = j.base.random := by
  rw [h.frame]

theorem enterScenario_triple (hj : j.Sound) (d : Datum α) :
    Triple (j.AtRest L) (Stage.enterScenario d)
      (fun _ m => j.AtRest L m ∧ ∀ n : ℕ, d = .int n → j.Joined (j.InScenario n) L m)
      (j.AtRest L) := by
  refine Triple.get_bind fun m hm => ?_
  have hnil : j.Joined (j.After []) L m :=
    hm.mono (fun r₀ _ v hv => ⟨v, hv, rfl⟩) fun _ _ _ _ hv => hv
  rw [hm.random_eq]
  refine (enterSamples_triple hj (fun e he => he) [] (by simp)).conseq
    (fun _ hs => hs ▸ hnil) ?_ fun _ hs => hs
  rintro _ m' ⟨as, hrows, hexact, hm'⟩
  rw [List.nil_append] at hm'
  have has : ∀ a ∈ as, a.1 ∈ j.randomRows := by
    intro a ha
    have := List.mem_map_of_mem (f := (·.1)) ha
    rwa [hrows] at this
  refine ⟨hm'.atRest has, fun n hn => ?_⟩
  obtain rfl := hexact n hn
  exact hm'.inScenario hrows

/-! ### Incoming values -/

def incoming (j : Junction α) (state : List α) (noise : Option (List α)) : List α :=
  (if j.links.isEmpty then [] else state) ++ (if j.noiseLinks.isEmpty then [] else noise.getD [])

def LinkAfter (j : Junction α) (as : List (ℕ × α)) (i : ℕ) (w : α) : Prop :=
  ∃ v id, j.ids[i]? = some id ∧ w = rhsAfter as id v

/-- Nothing is known of the incoming values. -/
abbrev AnyLink (_ : ℕ) (_ : α) : Prop := True

theorem Joined.anyLink {m : Stage α} (h : j.AtRest L m) : j.AtRest AnyLink m :=
  h.mono (fun _ _ _ hv => hv) fun _ _ _ _ _ => trivial

private theorem setLinks_triple (hj : j.Sound) {links : List ℕ} (hlinks : ∀ id ∈ links, id ∈ j.ids)
    (as : List (ℕ × α)) (xs : List α) :
    Triple (j.AtRest (j.LinkAfter as)) (Stage.setRhsAll links xs)
      (fun _ m => j.AtRest (j.LinkAfter (as ++ links.zip xs)) m ∧ links.length = xs.length)
      (j.AtRest AnyLink) := by
  have has : ∀ a ∈ links.zip xs, a.1 ∈ j.ids := fun a ha => hlinks a.1 (List.of_mem_zip ha).1
  refine (setRhsAll_triple (fun a ha => .inr (has a ha)) (fun r₀ hr₀ v hv => ?_) ?_).conseq
    (fun _ hm => hm) (fun _ _ hm => hm) fun m hm => hm.anyLink
  · rwa [hj.rhsAfter_base has hr₀]
  · rintro i id hi _ ⟨v, id', hi', rfl⟩
    obtain rfl := Option.some.inj (hi.symm.trans hi')
    exact ⟨v, id, hi, (rhsAfter_append _).symm⟩

private theorem enterNoise_triple (hj : j.Sound) (as : List (ℕ × α)) (noise : Option (List α)) :
    Triple (j.AtRest (j.LinkAfter as))
      (if !j.noiseLinks.isEmpty then
        match noise with
        | some noise => Stage.setRhsAll j.noiseLinks noise
        | none => throw (.kind .number)
      else pure ())
      (fun _ m => ∀ xs, xs = (if j.noiseLinks.isEmpty then [] else noise.getD []) →
        j.AtRest (j.LinkAfter (as ++ j.noiseLinks.zip xs)) m ∧ j.noiseLinks.length = xs.length)
      (j.AtRest AnyLink) := by
  by_cases h : j.noiseLinks.isEmpty = true
  · rw [if_neg (by simp [h]), if_pos h]
    refine Triple.pure fun m hm => ?_
    rintro _ rfl
    rw [List.isEmpty_iff.mp h]
    exact ⟨by simpa using hm, rfl⟩
  · rw [if_pos (by simp [h]), if_neg h]
    cases noise with
    | none => exact Triple.throw fun m hm => hm.anyLink
    | some noise =>
      refine (setLinks_triple hj (fun id hid => List.mem_append_right _ hid) as noise).conseq
        (fun _ hm => hm) ?_ fun _ hm => hm
      rintro _ m hm _ rfl
      exact hm

private theorem Joined.of_links (hj : j.Sound) {xs : List α} {m : Stage α}
    (hlen : j.ids.length = xs.length) (h : j.AtRest (j.LinkAfter (j.ids.zip xs)) m) :
    j.AtRest (fun i v => xs[i]? = some v) m := by
  refine h.mono (fun _ _ _ hv => hv) fun i id hi w hw => ?_
  obtain ⟨v, id', hi', rfl⟩ := hw
  obtain rfl := Option.some.inj (hi.symm.trans hi')
  have hlt : i < xs.length := hlen ▸ (List.getElem?_eq_some_iff.mp hi).1
  rw [List.getElem?_eq_getElem hlt, rhsAfter_zip hj.nodup hi (List.getElem?_eq_getElem hlt)]

theorem enterIncoming_triple (hj : j.Sound) (state : List α) (noise : Option (List α)) :
    Triple (j.AtRest AnyLink) (Stage.enterIncoming state noise)
      (fun _ m => j.AtRest (fun i v => (j.incoming state noise)[i]? = some v) m ∧
        (j.incoming state noise).length = j.ids.length)
      (j.AtRest AnyLink) := by
  refine Triple.get_bind fun m hm => ?_
  have hlinks : m.links = j.links := by rw [hm.frame]
  have hnoise : m.noiseLinks = j.noiseLinks := by rw [hm.frame]
  have hstart : j.AtRest (j.LinkAfter []) m :=
    hm.mono (fun _ _ _ hv => hv) fun i id hi v _ => ⟨v, id, hi, rfl⟩
  rw [hlinks, hnoise]
  set xs := if j.links.isEmpty then [] else state with hxs
  set ns := if j.noiseLinks.isEmpty then [] else noise.getD [] with hns
  have hrest :
      Triple (fun m => j.AtRest (j.LinkAfter (j.links.zip xs)) m ∧ j.links.length = xs.length)
      (if !j.noiseLinks.isEmpty then
        match noise with
        | some noise => Stage.setRhsAll j.noiseLinks noise
        | none => throw (.kind .number)
      else pure ())
      (fun _ m => j.AtRest (fun i v => (j.incoming state noise)[i]? = some v) m ∧
        (j.incoming state noise).length = j.ids.length)
      (j.AtRest AnyLink) := by
    refine Triple.of_and fun hlen =>
      (enterNoise_triple hj _ noise).conseq (fun _ hm => hm) ?_ fun _ hm => hm
    intro _ m hm
    obtain ⟨hm, hlen'⟩ := hm ns hns
    have hids : j.ids.length = (xs ++ ns).length := by
      rw [ids, List.length_append, List.length_append, hlen, hlen']
    rw [← List.zip_append hlen] at hm
    exact ⟨Joined.of_links hj hids hm, hids.symm⟩
  by_cases h : j.links.isEmpty = true
  · rw [if_neg (by simp [h])]
    rw [if_pos h] at hxs
    have hnil := List.isEmpty_iff.mp h
    refine hrest.conseq (fun m' hm' => ⟨?_, ?_⟩) (fun _ _ hm => hm) fun _ hm => hm
    · rw [hm', hnil, List.zip_nil_left]
      exact hstart
    · simp [hnil, hxs]
  · rw [if_pos (by simp [h])]
    rw [if_neg h] at hxs
    refine Triple.bind ?_ fun _ => hrest
    rw [hxs]
    refine (setLinks_triple hj (fun id hid => List.mem_append_left _ hid) [] state).conseq
      (fun m' hm' => ?_) (fun _ _ hm => hm) fun _ hm => hm
    rw [hm']
    exact hstart

/-! ### Cuts and solving -/

theorem putRow_triple {name : String} {terms : List (ℕ × α)} {relation : Relation} {rhs : α}
    (h : ∀ id name, id ∉ j.ids → j.base.issued ≤ id →
      j.Admits B L ⟨id, name, terms, relation, rhs⟩) :
    Triple (j.Joined B L) (Stage.putRow name terms relation rhs) (fun _ => j.Joined B L) E := by
  intro m hm
  refine ⟨fun id m' hrun => ?_, fun e m' hrun => ?_⟩ <;> cases hrun
  have hfresh : m.issued ∉ j.ids := fun hmem => (hm.reserved _ hmem).ne rfl
  exact (hm.addRow rfl (h m.issued _ hfresh hm.base)).withSolution .pending none

/-- Attaching a valid cut adds its row. -/
theorem attachCut_triple {c : Cut α} (hc : j.valid c) :
    Triple (j.Joined B L) (Stage.attachCut j.lagged c) (fun _ => j.Joined B L) (j.Joined B L) := by
  refine Triple.get_bind fun m hm => ?_
  refine Triple.bind (Q := fun _ => j.Joined B L)
    (Triple.ofExcept (fun s _ hs _ => hs ▸ hm) fun s hs => hs ▸ hm) fun _ => ?_
  have hcolumn : m.costToGoColumn = j.alpha.map fun _ => j.base.columns.length := by rw [hm.frame]
  have hterms (column : ℕ) : m.cutTerms j.lagged column c = j.base.cutTerms j.lagged column c := by
    rw [hm.frame]
    rfl
  have hsense : m.sense = j.base.sense := by rw [hm.frame]
  rcases halpha : j.alpha with _ | column
  · rw [hcolumn, halpha]
    exact Triple.throw fun _ hs => hs
  · rw [hcolumn, halpha]
    simp only [Option.map_some]
    split_ifs
    · exact Triple.throw_bind fun _ hs => hs
    · rw [hterms, hsense]
      refine Triple.bind (putRow_triple fun id name hfresh hissued => ?_) fun _ =>
        Triple.modify fun m hm => ?_
      · exact .cut hfresh hissued c hc (by rw [halpha]; rfl) rfl rfl rfl
      · refine hm.withCostToGo fun ctg hctg => ?_
        obtain ⟨ctg, hctg', rfl⟩ := Option.map_eq_some_iff.mp hctg
        exact hm.cuts ctg hctg'

theorem removeRows_triple {ids : List ℕ} :
    Triple (j.Joined B L) (Stage.removeRows ids) (fun _ => j.Joined B L) E := by
  intro m hm
  by_cases h : ids.isEmpty = true
  · have hrun : (Stage.removeRows ids).on m = (.ok (), m) := by simp [Run.on, Stage.removeRows, h]
    rw [hrun]
    refine ⟨fun _ m' hrun => ?_, fun e m' hrun => ?_⟩ <;> cases hrun
    exact hm
  · have hrun : (Stage.removeRows ids).on m = (.ok (), { m with
        rows := m.rows.filter fun r => !ids.contains r.id
        status := .pending, solution := none }) := by
      simp [Run.on, Stage.removeRows, Stage.discard, h]
    rw [hrun]
    refine ⟨fun _ m' hrun => ?_, fun e m' hrun => ?_⟩ <;> cases hrun
    exact (hm.filterRows _).withSolution .pending none

theorem detach_triple : Triple (j.Joined B L) Stage.detach (fun _ => j.Joined B L) E := by
  refine Triple.get_bind fun m hm => ?_
  rcases hctg : m.costToGo with _ | ctg
  · exact Triple.pure fun _ hs => hs ▸ hm
  · refine Triple.bind (Q := fun _ => j.Joined B L) (fun s hs => removeRows_triple s (hs ▸ hm))
      fun _ => ?_
    refine Triple.modify fun m' hm' => hm'.withCostToGo fun c hc => ?_
    obtain rfl := Option.some.inj hc
    exact hm.cuts ctg hctg

theorem attach_triple : Triple (j.Joined B L) Stage.attach (fun _ => j.Joined B L)
    (j.Joined B L) := by
  refine Triple.get_bind fun m hm => ?_
  rcases hctg : m.costToGo with _ | ctg
  · exact Triple.pure fun _ hs => hs ▸ hm
  · obtain ⟨hlagged, hvalid⟩ := hm.cuts ctg hctg
    simp only
    split_ifs
    · exact Triple.pure fun _ hs => hs ▸ hm
    · rw [hlagged]
      refine Triple.bind (Q := fun _ => j.Joined B L) (fun s hs => ?_) fun _ => detach_triple
      refine Triple.forM (fun c hc => ?_) s (hs ▸ hm)
      exact attachCut_triple (hvalid c (List.mem_filter.mp hc).1)

structure Solved (lp : Solver α) (m : Stage α) (x : Solution α) : Prop where
  exact : ∃ o, lp m.program = .optimal o ∧ x.value = o.value ∧ x.point = o.point ∧
    x.duals = (m.rows.map (·.id)).zip o.duals

theorem optimize_triple (lp : Solver α) (phase : String) (sample : Datum α) :
    Triple (j.Joined B L) (Stage.optimize lp phase sample)
      (fun x m => j.Joined B L m ∧ Solved lp m x) (j.Joined B L) := by
  intro m hm
  refine ⟨fun x m' hrun => ?_, fun e m' hrun => ?_⟩
  all_goals
    change Stage.optimize lp phase sample m = _ at hrun
    unfold Stage.optimize at hrun
    rcases hlp : lp m.program with o | _ | _ | _ <;> rw [hlp] at hrun <;> cases hrun
  · exact ⟨hm.withSolution _ _, ⟨o, hlp, rfl, rfl, rfl⟩⟩
  all_goals exact hm.withSolution _ _

theorem solve_triple (lp : Solver α) (phase : String) (sample : Datum α) :
    Triple (j.Joined B L) (Stage.solve lp phase sample)
      (fun x m => j.Joined B L m ∧ Solved lp m x) (j.Joined B L) :=
  Triple.bind attach_triple fun _ => optimize_triple lp phase sample

theorem addCut_triple {c : Cut α} (hc : ∀ i, j.valid { c with index := i }) :
    Triple (j.Joined B L) (Stage.onPool (Pool.add c)) (fun _ => j.Joined B L) (j.Joined B L) := by
  intro m hm
  rcases hctg : m.costToGo with _ | ctg
  · have hrun : (Stage.onPool (Pool.add c)).on m = (.error .missingPart, m) := by
      simp [Run.on, Stage.onPool, hctg]
    rw [hrun]
    refine ⟨fun _ m' hrun => ?_, fun e m' hrun => ?_⟩ <;> cases hrun
    exact hm
  · rcases hadd : (Pool.add c).on ctg.pool with ⟨r, pool⟩
    have hrun : (Stage.onPool (Pool.add c)).on m =
        (r, { m with costToGo := some { ctg with pool } }) := by
      simp [Run.on, Stage.onPool, hctg, show Pool.add c ctg.pool = (r, pool) from hadd]
    have hkept : j.Joined B L { m with costToGo := some { ctg with pool } } := by
      refine hm.withCostToGo fun ctg' hctg' => ?_
      obtain rfl := Option.some.inj hctg'
      obtain ⟨hlagged, hvalid⟩ := hm.cuts ctg hctg
      refine ⟨hlagged, fun d hd => ?_⟩
      rcases Pool.add_subset hadd d hd with hd | rfl
      · exact hvalid d hd
      · exact hc _
    rw [hrun]
    refine ⟨fun _ m' hrun => ?_, fun e m' hrun => ?_⟩ <;> cases hrun <;> exact hkept

end Recourse.Junction
