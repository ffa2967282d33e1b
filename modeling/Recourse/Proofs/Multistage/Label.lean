import Recourse.Proofs.Multistage.Writing
import Recourse.Proofs.Fraction
import Recourse.Problems

/-! The label of a problem: whether all of its measures are the plain expectation. A choice that
succeeds sets the label anew, and a tail is checked as a whole before anything is written. A measure
for several stages is checked stage by stage while it is written: a choice that is refused has set
the stages before the one that it stumbled over, and the label is as it was before. -/

namespace Recourse

variable {α : Type}

section

variable [Field α] [LinearOrder α]

theorem Scalar.ofInt_eq (n : ℤ) : (Scalar.ofInt n : α) = n := by
  cases n with
  | ofNat n => exact (Int.cast_natCast n).symm
  | negSucc n => exact (Int.cast_negSucc n).symm

theorem Datum.number?_of_int? {d : Datum α} {n : ℤ} (h : d.int? = some n) :
    d.number? = some (n : α) := by
  cases d with
  | bool b =>
    obtain rfl := Option.some.inj h
    cases b <;> simp [Datum.number?]
  | int m =>
    obtain rfl := Option.some.inj h
    exact congrArg some (Scalar.ofInt_eq m)
  | _ => cases h

end

theorem TailParameter.length_spread [Scalar α] {parameter : TailParameter} {n : ℕ} {d : Datum α}
    {ds : List (Datum α)} (h : parameter.spread n d = .ok ds) : ds.length = n := by
  unfold spread at h
  split at h
  case h_1 | h_2 =>
    dsimp only at h
    split_ifs at h with hlength
    obtain ⟨_, -, h⟩ := ok_of_bind (h : (parameter.checkEach _ >>= fun _ => .ok _) = .ok ds)
    obtain rfl := Except.ok.inj h
    exact not_not.mp hlength
  case h_3 | h_4 | h_5 =>
    split_ifs at h
    obtain rfl := Except.ok.inj h
    exact List.length_replicate
  all_goals cases h

namespace Multistage

open Run (Keeps Triple)

variable {p P : Multistage α} {choice : Preference α}

/-- Whether the label of a problem tells what its measures are. -/
def Labelled (P : Multistage α) : Prop := P.riskAverse = !P.measures.all Preference.isNeutral

theorem Labelled.riskAverse_iff (h : P.Labelled) :
    P.riskAverse = true ↔ ∃ choice ∈ P.measures, choice.isNeutral = false := by
  rw [Labelled] at h
  simp [h]

def laterStage? (P : Multistage α) (stage : Datum α) : Option ℕ :=
  stage.int?.bind fun n => if 1 ≤ n ∧ n < P.horizon then some n.toNat else none

/-- The stages that are named before the first one for which no measure can be chosen. -/
def acceptedStages (P : Multistage α) (stages : List (Datum α)) : List ℕ :=
  ((stages.map P.laterStage?).takeWhile Option.isSome).filterMap id

def askedStages? (P : Multistage α) (stages : Datum α) : Option (List (Datum α)) :=
  if stages matches .null then some P.laterStages else stages.items?

def Choosable (P : Multistage α) (stages : Datum α) : Prop :=
  ∃ asked, P.askedStages? stages = some asked ∧ ∀ stage ∈ asked, (P.laterStage? stage).isSome

def writtenStages (P : Multistage α) (stages : Datum α) : List ℕ :=
  P.acceptedStages ((P.askedStages? stages).getD [])

def choose (choice : Preference α) (ts : List ℕ) (P : Multistage α) : Multistage α :=
  { P with measures := ts.foldl (fun measures t => measures.set t choice) P.measures }

def relabelled (P : Multistage α) : Multistage α :=
  { P with riskAverse := !P.measures.all Preference.isNeutral }

@[simp] theorem choose_nil (choice : Preference α) (P : Multistage α) :
    P.choose choice [] = P := rfl

@[simp] theorem choose_append (choice : Preference α) (ts ts' : List ℕ) (P : Multistage α) :
    (P.choose choice ts).choose choice ts' = P.choose choice (ts ++ ts') := by
  simp [choose]

@[simp] theorem laterStage?_choose (choice : Preference α) (ts : List ℕ) (P : Multistage α) :
    (P.choose choice ts).laterStage? = P.laterStage? := rfl

theorem acceptedStages_cons_some {stage : Datum α} {t : ℕ} (h : P.laterStage? stage = some t)
    (stages : List (Datum α)) :
    P.acceptedStages (stage :: stages) = t :: P.acceptedStages stages := by
  simp [acceptedStages, h]

theorem acceptedStages_cons_none {stage : Datum α} (h : P.laterStage? stage = none)
    (stages : List (Datum α)) :
    P.acceptedStages (stage :: stages) = [] := by
  simp [acceptedStages, h]

theorem labelled_relabelled (P : Multistage α) : P.relabelled.Labelled := rfl

section

variable [Field α] [LinearOrder α] [IsStrictOrderedRing α]

theorem setStageMeasure_on (choice : Preference α) (stage : Datum α) (P : Multistage α) :
    (∃ t, P.laterStage? stage = some t ∧
      (setStageMeasure choice stage).on P = (.ok (), P.choose choice [t])) ∨
    P.laterStage? stage = none ∧ ∃ e, (setStageMeasure choice stage).on P = (.error e, P) := by
  rw [setStageMeasure, Run.bind_ok _ (Run.get_on P)]
  rcases hn : stage.int? with _ | n
  · have hnone : P.laterStage? stage = none := by simp [laterStage?, hn]
    refine .inr ⟨hnone, ?_⟩
    rcases stage.number? with _ | x
    · exact ⟨_, rfl⟩
    dsimp only
    split_ifs
    · exact ⟨_, Run.bind_error _ (Run.throw_on _ P)⟩
    · exact ⟨_, rfl⟩
  · rw [Datum.number?_of_int? hn]
    dsimp only
    by_cases hrange : 1 ≤ n ∧ n < P.horizon
    · have hin : (1 : α) ≤ n ∧ (n : α) < P.horizon :=
        ⟨by exact_mod_cast hrange.1, by exact_mod_cast hrange.2⟩
      rw [if_neg (by simp [hin])]
      exact .inl ⟨n.toNat, by simp [laterStage?, hn, hrange], rfl⟩
    · have hout : (decide ((1 : α) ≤ n) && decide ((n : α) < P.horizon)) = false := by
        rw [← Bool.decide_and, decide_eq_false_iff_not]
        exact fun h => hrange ⟨by exact_mod_cast h.1, by exact_mod_cast h.2⟩
      rw [if_pos (by rw [hout]; rfl)]
      exact .inr ⟨by simp [laterStage?, hn, hrange], _, Run.bind_error _ (Run.throw_on _ P)⟩

/-- The measures of several stages are written one by one, up to the first stage that is refused. -/
theorem forM_setStageMeasure_on (choice : Preference α) (stages : List (Datum α))
    (P : Multistage α) :
    ∃ r, (stages.forM (setStageMeasure choice)).on P =
      (r, P.choose choice (P.acceptedStages stages)) ∧
      (r = .ok () ↔ ∀ stage ∈ stages, (P.laterStage? stage).isSome) := by
  induction stages generalizing P with
  | nil => exact ⟨.ok (), rfl, by simp⟩
  | cons stage stages ih =>
    rcases setStageMeasure_on choice stage P with ⟨t, ht, hrun⟩ | ⟨hnone, e, hrun⟩
    · obtain ⟨r, hrest, hr⟩ := ih (P.choose choice [t])
      refine ⟨r, ?_, ?_⟩
      · rw [List.forM_eq_forM, List.forM_cons, Run.bind_ok _ hrun, ← List.forM_eq_forM, hrest,
          acceptedStages_cons_some ht,
          choose_append]
        rfl
      · rw [hr]
        simp [ht]
    · refine ⟨.error e, ?_, by simp [hnone]⟩
      rw [List.forM_eq_forM, List.forM_cons, Run.bind_error _ hrun, acceptedStages_cons_none hnone,
        choose_nil]

omit [IsStrictOrderedRing α] in
theorem setMeasure_eq (choice : Preference α) (stages : Datum α) (P : Multistage α) :
    (setMeasure choice stages).on P = match P.askedStages? stages with
      | some asked => (do asked.forM (setStageMeasure choice); label : Run α
        (Multistage α) Unit).on P
      | none => (.error (.kind .number), P) := by
  rw [setMeasure, Run.bind_ok _ (Run.get_on P)]
  cases stages <;> rfl

/-- A choice of a measure succeeds if a measure can be chosen for all stages that it is asked for,
and then the label is set anew. Otherwise the measures of the stages before the first one that is
refused are written, and nothing else. -/
theorem setMeasure_on (choice : Preference α) (stages : Datum α) (P : Multistage α) :
    let P' := P.choose choice (P.writtenStages stages)
    (P.Choosable stages ∧ (setMeasure choice stages).on P = (.ok (), P'.relabelled)) ∨
    (¬ P.Choosable stages ∧ ∃ e, (setMeasure choice stages).on P = (.error e, P')) := by
  intro P'
  rw [setMeasure_eq, Choosable, show P' = P.choose choice
    (P.acceptedStages ((P.askedStages? stages).getD [])) from rfl]
  cases P.askedStages? stages with
  | none => exact .inr ⟨by simp, _, rfl⟩
  | some asked =>
    obtain ⟨r, hforM, hr⟩ := forM_setStageMeasure_on choice asked P
    dsimp only [Option.getD_some]
    rcases r with e | ⟨⟩
    · refine .inr ⟨?_, e, Run.bind_error _ hforM⟩
      rintro ⟨asked', hasked, hall⟩
      obtain rfl := Option.some.inj hasked
      cases hr.mpr hall
    · exact .inl ⟨⟨asked, rfl, hr.mp rfl⟩, Run.bind_ok _ hforM⟩

omit [Field α] [LinearOrder α] [IsStrictOrderedRing α] in
theorem isSome_laterStage? {stage : Datum α} (h : stage ∈ P.laterStages) :
    (P.laterStage? stage).isSome := by
  obtain ⟨i, hi, rfl⟩ := List.mem_map.mp h
  have hlt := List.mem_range.mp hi
  have hrange : (1 : ℤ) ≤ ↑i + 1 ∧ (i : ℤ) + 1 < ↑P.horizon := by omega
  simp [laterStage?, Datum.int?, hrange]

/-- Tails for stages after the first are all written, and if there is any the label is right in the
end. -/
theorem forM_setTail_on {choices : List (Datum α × Datum α × Datum α)}
    (h : ∀ c ∈ choices, (P.laterStage? c.1).isSome) :
    ∃ P', (choices.forM fun c => setMeasure (.tail c.2.1 c.2.2) (.list [c.1])).on P = (.ok (), P') ∧
      (P.Labelled ∨ choices ≠ [] → P'.Labelled) := by
  induction choices generalizing P with
  | nil => exact ⟨P, rfl, fun hP => hP.resolve_right (absurd rfl)⟩
  | cons c choices ih =>
    have hchoosable : P.Choosable (.list [c.1]) :=
      ⟨[c.1], rfl, by simpa using h c List.mem_cons_self⟩
    rcases setMeasure_on (.tail c.2.1 c.2.2) (.list [c.1]) P with ⟨-, hrun⟩ | ⟨hrefused, -⟩
    · set P₁ := (P.choose (.tail c.2.1 c.2.2) (P.writtenStages (.list [c.1]))).relabelled
      have hstages : P₁.laterStage? = P.laterStage? := rfl
      obtain ⟨P', hrest, hlabelled⟩ := ih (P := P₁) fun d hd =>
        hstages ▸ h d (List.mem_cons_of_mem _ hd)
      refine ⟨P', ?_, fun _ => hlabelled (.inl (labelled_relabelled _))⟩
      rw [List.forM_eq_forM, List.forM_cons, Run.bind_ok _ hrun]
      exact hrest
    · exact absurd hchoosable hrefused

/-- A tail that is refused leaves everything as it was. One that is chosen leaves the right label if
there was one, or if there is a stage to choose it for. -/
theorem setTail_on (weight level : Datum α) (P : Multistage α) :
    (∃ e, (setTail weight level).on P = (.error e, P)) ∨
    ∃ P', (setTail weight level).on P = (.ok (), P') ∧
      (P.Labelled ∨ 1 < P.horizon → P'.Labelled) := by
  rw [setTail, Run.bind_ok _ (Run.get_on P)]
  rcases hweights : TailParameter.weight.spread P.laterStages.length weight with e | weights
  · exact .inl ⟨e, Run.bind_error _ (by rw [Run.ofExcept_on, hweights])⟩
  dsimp only
  rw [Run.ofExcept_bind hweights]
  rcases hlevels : TailParameter.level.spread P.laterStages.length level with e | levels
  · exact .inl ⟨e, Run.bind_error _ (Run.ofExcept_on _ P)⟩
  rw [Run.bind_ok _ (Run.ofExcept_on _ P)]
  have hstages : ∀ c ∈ P.laterStages.zip (weights.zip levels),
      (P.laterStage? c.1).isSome := fun c hc =>
    isSome_laterStage? (List.of_mem_zip hc).1
  obtain ⟨P', hrun, hlabelled⟩ := forM_setTail_on hstages
  refine .inr ⟨P', hrun, fun h => hlabelled (h.imp_right fun hhorizon => ?_)⟩
  have hlength : (P.laterStages.zip (weights.zip levels)).length = P.horizon - 1 := by
    simp [TailParameter.length_spread hweights, TailParameter.length_spread hlevels, laterStages]
  exact List.ne_nil_of_length_pos (by omega)

omit [Field α] [LinearOrder α] [IsStrictOrderedRing α] in
/-- The label cannot go wrong where there is no stage to choose a measure for. -/
theorem writtenStages_of_horizon (h : P.horizon ≤ 1) [Scalar α] (stages : Datum α) :
    P.writtenStages stages = [] := by
  have hnone (stage : Datum α) : P.laterStage? stage = none := by
    simp only [laterStage?, Option.bind_eq_none_iff]
    intro n _
    rw [if_neg (by omega)]
  rw [writtenStages]
  rcases (P.askedStages? stages).getD [] with _ | ⟨stage, rest⟩
  · rfl
  · exact acceptedStages_cons_none (hnone stage) rest

/-! ### Sequences of calls -/

variable [Numeral α]

/-- A problem that has the right label, or at least one stage to choose a measure for. -/
def Labellable (P : Multistage α) : Prop := P.Labelled ∨ 1 < P.horizon

omit [IsStrictOrderedRing α] in
theorem labelled_of_create {o : Outline α} (h : create o = .ok p) : p.Labelled := by
  obtain ⟨good, -, h⟩ := ok_of_bind h
  cases good with
  | false => cases h
  | true =>
    rcases hn : o.horizon.int? with _ | n
    · simp only [hn] at h
      cases h
    · simp only [hn] at h
      obtain ⟨discount, -, h⟩ := ok_of_bind h
      obtain ⟨models, -, h⟩ := ok_of_bind h
      obtain rfl := Except.ok.inj h
      have hneutral : (Preference.neutral : Preference α).isNeutral = true := rfl
      simp [Labelled, hneutral]

/-- Whether a call fails although it has written measures. -/
def WriteStep.Abandons (step : WriteStep α) (P : Multistage α) : Prop :=
  (step.run.on P).1.isOk = false ∧ (step.after P).measures ≠ P.measures

def choices (P : Multistage α) : List (Preference α) × Bool × ℕ :=
  (P.measures, P.riskAverse, P.horizon)

omit [Field α] [LinearOrder α] [IsStrictOrderedRing α] [Numeral α] in
theorem labelled_of_choices (h : P.choices = p.choices) (hp : p.Labelled) : P.Labelled := by
  obtain ⟨hmeasures, hlabel, -⟩ : P.measures = p.measures ∧ P.riskAverse = p.riskAverse ∧
    P.horizon = p.horizon := by
    simpa [choices] using h
  rw [Labelled, hmeasures, hlabel]
  exact hp

omit [Field α] [LinearOrder α] [IsStrictOrderedRing α] [Numeral α] in
theorem labellable_of_choices (h : P.choices = p.choices) (hp : p.Labellable) : P.Labellable :=
  hp.imp (labelled_of_choices h) fun hhorizon =>
    (congrArg (fun c => c.2.2) h : P.horizon = p.horizon) ▸ hhorizon

omit [IsStrictOrderedRing α] in
theorem after_choices {step : WriteStep α}
    (hmeasure : ∀ choice stages, step ≠ .measure choice stages)
    (htail : ∀ weight level, step ≠ .tail weight level) : (step.after P).choices = P.choices := by
  cases step with
  | measure choice stages => exact absurd rfl (hmeasure choice stages)
  | tail weight level => exact absurd rfl (htail weight level)
  | chain matrices =>
    rcases setChain_on matrices P with ⟨e, hrun⟩ | ⟨chain, models, -, -, hrun⟩
    · rw [WriteStep.after, WriteStep.run, hrun]
    · rw [WriteStep.after, WriteStep.run, hrun]
      rfl
  | model t k step =>
    have hat : Keeps (fun Q : Multistage α => Q.choices = P.choices) (onModelAt t k step.run) :=
      .get_bind fun _ => .bind .ofExcept fun _ => Keeps.iff_on.mpr fun _ hQ => hQ
    exact Keeps.iff_on.mp hat P rfl
  | prepare =>
    have hdraft := Keeps.iff_on.mp (prepare_draft P.draft) P rfl
    exact (congrArg choices hdraft :)

/-- A call that does not abandon what it has written leaves the right label. -/
theorem Labelled.after (hP : P.Labelled) {step : WriteStep α} (hstep : ¬ step.Abandons P) :
    (step.after P).Labelled := by
  cases step with
  | measure choice stages =>
    rcases setMeasure_on choice stages P with ⟨-, hrun⟩ | ⟨-, e, hrun⟩
    · rw [WriteStep.after, WriteStep.run, hrun]
      exact labelled_relabelled _
    · have hsame : ((WriteStep.measure choice stages).after P).measures = P.measures := by
        by_contra hne
        exact hstep ⟨by rw [WriteStep.run, hrun]; rfl, hne⟩
      rw [WriteStep.after, WriteStep.run, hrun] at hsame ⊢
      exact labelled_of_choices (by rw [choices, hsame]; rfl) hP
  | tail weight level =>
    rcases setTail_on weight level P with ⟨e, hrun⟩ | ⟨P', hrun, hlabelled⟩ <;>
      rw [WriteStep.after, WriteStep.run, hrun]
    · exact hP
    · exact hlabelled (.inl hP)
  | _ => exact labelled_of_choices (after_choices (by simp) (by simp)) hP

theorem Labellable.after (hP : P.Labellable) (step : WriteStep α) : (step.after P).Labellable := by
  cases step with
  | measure choice stages =>
    rcases setMeasure_on choice stages P with ⟨-, hrun⟩ | ⟨-, e, hrun⟩ <;>
      rw [WriteStep.after, WriteStep.run, hrun]
    · exact .inl (labelled_relabelled _)
    · rcases Nat.lt_or_ge 1 P.horizon with hlater | hnone
      · exact .inr hlater
      · rw [writtenStages_of_horizon hnone]
        exact hP
  | tail weight level =>
    rcases setTail_on weight level P with ⟨e, hrun⟩ | ⟨P', hrun, hlabelled⟩ <;>
      rw [WriteStep.after, WriteStep.run, hrun]
    · exact hP
    · exact .inl (hlabelled hP)
  | _ => exact labellable_of_choices (after_choices (by simp) (by simp)) hP

theorem Labellable.write (hP : P.Labellable) (steps : List (WriteStep α)) :
    (Multistage.write steps P).Labellable := by
  induction steps generalizing P with
  | nil => exact hP
  | cons step steps ih => exact ih (hP.after step)

/-- If no call abandons what it has written, the label is right all along. -/
theorem Labelled.write (hP : P.Labelled) {steps : List (WriteStep α)}
    (h : ∀ earlier step later, steps = earlier ++ step :: later →
      ¬ step.Abandons (Multistage.write earlier P)) :
    (Multistage.write steps P).Labelled := by
  induction steps generalizing P with
  | nil => exact hP
  | cons step steps ih =>
    refine ih (hP.after (h [] step steps rfl)) fun earlier later rest hsplit => ?_
    exact h (step :: earlier) later rest (by rw [hsplit, List.cons_append])

/-- The label of a problem that is written tells whether all measures are the plain expectation, as
long as no choice of a measure was refused after it had written some stage. A choice of a measure
succeeds exactly if there is a measure to choose for every stage that it is asked for, and leaves
the right label; one that is refused writes the stages before the first that is refused, and leaves
the label as it was. A tail either leaves the right label or changes nothing. -/
theorem labelled_of_write {o : Outline α} (h : create o = .ok p) (steps : List (WriteStep α)) :
    let P := Multistage.write steps p
    ((∀ earlier step later, steps = earlier ++ step :: later →
    ¬ step.Abandons (Multistage.write earlier p)) → P.Labelled) ∧
    (∀ choice stages,
      (P.Choosable stages ∧ ∃ P', (setMeasure choice stages).on P = (.ok (), P') ∧ P'.Labelled) ∨
      (¬ P.Choosable stages ∧ ∃ e,
      (setMeasure choice stages).on P = (.error e, P.choose choice (P.writtenStages stages)))) ∧
    ∀ weight level, (∃ P', (setTail weight level).on P = (.ok (), P') ∧ P'.Labelled) ∨
      ∃ e, (setTail weight level).on P = (.error e, P) := by
  intro P
  have hlabelled := labelled_of_create h
  have hP : P.Labellable := Labellable.write (.inl hlabelled) steps
  refine ⟨hlabelled.write, fun choice stages => ?_, fun weight level => ?_⟩
  · rcases setMeasure_on choice stages P with ⟨hchoosable, hrun⟩ | hrefused
    · exact .inl ⟨hchoosable, _, hrun, labelled_relabelled _⟩
    · exact .inr hrefused
  · rcases setTail_on weight level P with hrefused | ⟨P', hrun, hlabelled⟩
    · exact .inr hrefused
    · exact .inl ⟨P', hrun, hlabelled hP⟩

end

/-- Three stages are asked for, and the worst case for the second of them and for one that does not
exist. -/
def worstBeyond : Run ℚ (Multistage ℚ) Unit :=
  setMeasure { name := "WorstCase", parameters := [] } (.list [.int 1, .int 3])

theorem worstBeyond_on : ∃ p : Multistage ℚ, create (Problems.outline (.int 3)) = .ok p ∧
    ((worstBeyond.on p).1 matches .error (.value .measureStage)) = true ∧
    (worstBeyond.on p).2.measures.map Preference.name =
    ["Expectation", "WorstCase", "Expectation"] ∧
    (worstBeyond.on p).2.riskAverse = false ∧
    (worstBeyond.on p).2.measures.all Preference.isNeutral = false := by
  obtain ⟨p, hp, h⟩ : ∃ p : Multistage ℚ, p ∈ (create (Problems.outline (.int 3))).toOption ∧
      ((worstBeyond.on p).1 matches .error (.value .measureStage)) = true ∧
      (worstBeyond.on p).2.measures.map Preference.name =
      ["Expectation", "WorstCase", "Expectation"] ∧
      (worstBeyond.on p).2.riskAverse = false ∧
      (worstBeyond.on p).2.measures.all Preference.isNeutral = false := by
    decide +kernel
  exact ⟨p, ok_of_toOption hp, h⟩

/-- That choice is refused, and yet the second stage has the measure then, while the label still
tells that all measures are the plain expectation. -/
theorem worstBeyond_mislabels : ∃ p P' : Multistage ℚ, create (Problems.outline (.int 3)) = .ok p ∧
    worstBeyond.on p = (.error (.value .measureStage), P') ∧
    P'.measures.map Preference.name = ["Expectation", "WorstCase", "Expectation"] ∧
    P'.riskAverse = false ∧
    ¬ P'.Labelled := by
  obtain ⟨p, hcreate, hfault, hmeasures, hlabel, hneutral⟩ := worstBeyond_on
  refine ⟨p, _, hcreate, Prod.ext ?_ rfl, hmeasures, hlabel, by simp [Labelled, hlabel, hneutral]⟩
  split at hfault
  · assumption
  · cases hfault

/-- The label of the three stages is right to begin with, and after a measure was chosen for all
that follow the first. -/
theorem labelled_of_write_worstCase : ∃ p : Multistage ℚ,
    create (Problems.outline (.int 3)) = .ok p ∧ p.Labelled ∧
    ∃ P', (setMeasure { name := "WorstCase", parameters := [] } .null).on p = (.ok (), P') ∧
      P'.Labelled := by
  obtain ⟨p, hcreate, -⟩ := worstBeyond_on
  obtain ⟨hlabelled, hmeasure, -⟩ := labelled_of_write hcreate []
  refine ⟨p, hcreate, hlabelled fun earlier step later h => by simp at h, ?_⟩
  rcases hmeasure { name := "WorstCase", parameters := [] } .null with ⟨-, hrun⟩ | ⟨hrefused, -⟩
  · exact hrun
  · exact absurd ⟨p.laterStages, rfl, fun stage => isSome_laterStage?⟩ hrefused

end Multistage

end Recourse
