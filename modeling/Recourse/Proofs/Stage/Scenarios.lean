import Recourse.Proofs.Fraction
import Recourse.Proofs.Stage.Building

/-! How many scenarios a model has. The samples of all its rows are as many as it has scenarios,
whatever the calls are by which it was written. Probabilities are as many as there were scenarios
when they were set. From the first samples on that number stays; before, it may still change, and
nothing compares the probabilities with it again. -/

namespace Recourse.Stage

open Run (Keeps)

variable {α : Type}

section Counting

variable [Scalar α] [Numeral α]

omit [Numeral α] in
theorem Lasting.of_scenarios {J : ℕ → List (RandomRhs α) → Option (List α) → Prop}
    (hcount : ∀ n n' p, J n [] p → J n' [] p)
    (hrandom : ∀ n random random' p, random' ≠ [] →
      (∀ e ∈ random', e ∈ random ∨ e.sampleCount = n) → J n random p →
      J n random' p) :
    Lasting fun m : Stage α => J m.sampleCount m.random m.probability where
  toOpen := .of_scenarios fun n random p _ => J n random p
  states := fun _ _ _ _ hm => hm
  count := by
    intro m n _ hnil hm
    rw [hnil] at hm ⊢
    exact hcount _ _ _ hm
  random := fun m random hne hmem hm =>
  hrandom _ _ _ _ hne (fun e he => (hmem e he).imp_right And.left) hm
  noise := fun _ _ _ _ _ _ hm => hm
  objective := by
    intro terms constant
    unfold setObjective
    split_ifs
    · exact Run.Triple.throw_bind fun _ hm => hm
    · exact Run.Triple.modify fun _ hm => hm
  sense := by
    refine fun sense => Keeps.iff_on.mpr fun m hm => ?_
    obtain ⟨status, solution, hrun⟩ := setSense_on sense m
    rw [hrun]
    exact hm

omit [Numeral α] in
theorem samples_lasting :
    Lasting fun m : Stage α => ∀ e ∈ m.random, e.sampleCount = m.sampleCount := by
  refine .of_scenarios (J := fun n random _ => ∀ e ∈ random, e.sampleCount = n) ?_ ?_
  · intro n n' p h e he
    cases he
  · intro n random random' p hne hmem h e he
    rcases hmem e he with he | he
    · exact h e he
    · exact he

omit [Numeral α] in
/-- Once there are samples, the number of scenarios does not change any more. -/
theorem fixed_lasting (n : ℕ) : Lasting fun m : Stage α => m.random ≠ [] ∧ m.sampleCount = n := by
  refine .of_scenarios (J := fun n' random _ => random ≠ [] ∧ n' = n) ?_ ?_
  · intro n' n'' p h
    exact absurd rfl h.1
  · intro n' random random' p hne hmem h
    exact ⟨hne, h.2⟩

omit [Numeral α] in
theorem probability_lasting (q : Option (List α)) : Lasting fun m : Stage α => m.probability = q :=
  .of_scenarios (J := fun _ _ p => p = q) (fun _ _ _ h => h) fun _ _ _ _ _ _ h => h

end Counting

variable [Field α] [LinearOrder α] [Numeral α] {m m₀ : Stage α}

/-- Probabilities change only by the call that sets them. -/
theorem BuildStep.after_probability (step : BuildStep α) (m : Stage α) :
    (step.after m).probability = m.probability ∨
      ∃ d p, step = .probability d ∧ (step.after m).probability = some p ∧
        p.length = m.sampleCount ∧ ∀ x ∈ p, 0 ≤ x := by
  by_cases hstep : ∃ d, step = .probability d
  · obtain ⟨d, rfl⟩ := hstep
    have hset := setProbability_triple (I := (· = m)) (Q := fun s => ∃ p, s.probability = some p ∧
      p.length = m.sampleCount ∧ ∀ x ∈ p, 0 ≤ x) d fun s p hs hlength hsign _ =>
        ⟨p, rfl, hs ▸ hlength, fun x hx => not_lt.mp (hsign x hx)⟩
    unfold BuildStep.after BuildStep.run
    rcases hrun : (setProbability d).on m with ⟨e | _, m'⟩
    · left
      rw [(hset m rfl).2 e m' hrun]
    · obtain ⟨p, hp⟩ := (hset m rfl).1 () m' hrun
      exact .inr ⟨d, p, rfl, hp⟩
  · left
    have hkept := (probability_lasting m.probability).run step fun d hd => absurd ⟨d, hd⟩ hstep
    exact Keeps.iff_on.mp hkept m rfl

/-- After any calls, accepted or refused, the samples of each row are as many as the model has
scenarios. Its probabilities, if it has any, are not negative, and they are as many as there were
scenarios at the call that set them; if there were samples by then, they are as many as there are
scenarios. -/
theorem build_scenarios (name : String) (stage markovState : Datum α) (sense : Sense)
    (steps : List (BuildStep α)) :
    let m := build steps (empty name stage markovState sense)
    (∀ e ∈ m.random, e.sampleCount = m.sampleCount) ∧
    ∀ p, m.probability = some p → (∀ x ∈ p, 0 ≤ x) ∧
      ∃ before d later, steps = before ++ .probability d :: later ∧
        p.length = (build before (empty name stage markovState sense)).sampleCount ∧
        ((build before (empty name stage markovState sense)).random ≠ [] →
        p.length = m.sampleCount) := by
  set m₀ : Stage α := empty name stage markovState sense with hm₀
  refine ⟨samples_lasting.build (fun _ _ h => h) steps (by simp [hm₀, empty]), ?_⟩
  induction steps using List.reverseRecOn with
  | nil =>
    intro p hp
    simp [hm₀, empty] at hp
  | append_singleton steps step ih =>
    rw [build_concat]
    set m := build steps m₀
    intro p hp
    rcases step.after_probability m with hsame | ⟨d, p', rfl, hp', hlength, hsign⟩
    · rw [hsame] at hp
      obtain ⟨hsign, before, d, later, rfl, hlength, hfixed⟩ := ih p hp
      refine ⟨hsign, before, d, later ++ [step], by simp, hlength, fun hrandom => ?_⟩
      have hbuilt : build (before ++ .probability d :: (later ++ [step])) m₀ = step.after m := by
        rw [← build_concat]
        simp
      -- the samples that were there when the probabilities were set have fixed the number
      have hcount := (fixed_lasting (build before m₀).sampleCount).build (fun _ _ h => h)
        (.probability d :: (later ++ [step])) ⟨hrandom, rfl⟩
      rw [← build_append, hbuilt] at hcount
      rw [hlength, hcount.2]
    · rw [hp'] at hp
      obtain rfl := Option.some.inj hp
      refine ⟨hsign, steps, d, [], rfl, hlength, fun hrandom => ?_⟩
      have hcount := (fixed_lasting m.sampleCount).after (fun _ _ h => h) (.probability d)
        ⟨hrandom, rfl⟩
      rw [hlength, hcount.2]

/-- A certain scenario is told first, and then a demand with two samples arrives. -/
def hastySteps : List (BuildStep ℚ) :=
  [.probability (.list [.real 1]),
   .column { name := .text "x", lower := .int 0, upper := .int 9, cost := .int 1 },
   .row ⟨[(0, 1)], 0, .atLeast, 0⟩ (.text "demand")
   (some (.record [("rhs", .list [.int 1, .int 2])]))]

/-- Probabilities that were set before the samples are not compared with them: two scenarios share
one probability. -/
theorem build_scenarios_hasty :
    (build hastySteps (empty "hasty" .null .null .minimize)).sampleCount = 2 ∧
      (build hastySteps (empty "hasty" .null .null .minimize)).probability = some [1] := by
  decide +kernel

end Recourse.Stage
