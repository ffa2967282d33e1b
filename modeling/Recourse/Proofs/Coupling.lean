import Recourse.Proofs.Run

/-! Two runs side by side. States are held against each other by a relation, and two operations are
coupled if they end alike on states in that relation: both answer, or both fail with one fault, and
what they leave behind is in the relation again. -/

namespace Recourse.Run

variable {α σ τ ρ β γ δ ζ : Type}

/-- Two outcomes alike: answers in a relation, or one and the same fault. -/
inductive Alike (A : β → γ → Prop) : Except (Fault α) β → Except (Fault α) γ → Prop
  | ok {b : β} {c : γ} (h : A b c) : Alike A (.ok b) (.ok c)
  | error (e : Fault α) : Alike A (.error e) (.error e)

theorem Alike.refl {A : β → β → Prop} (h : ∀ b, A b b) (r : Except (Fault α) β) : Alike A r r := by
  cases r with
  | ok b => exact .ok (h b)
  | error e => exact .error e

theorem Alike.mono {A B : β → γ → Prop} {r : Except (Fault α) β} {r' : Except (Fault α) γ}
    (h : Alike A r r') (hAB : ∀ b c, A b c → B b c) : Alike B r r' := by
  cases h with
  | ok h => exact .ok (hAB _ _ h)
  | error e => exact .error e

theorem Alike.map {A : β → γ → Prop} {C : δ → ζ → Prop} {r : Except (Fault α) β}
    {r' : Except (Fault α) γ} {f : β → δ}
    {g : γ → ζ} (h : Alike A r r') (hfg : ∀ b c, A b c → C (f b) (g c)) :
    Alike C (r.map f) (r'.map g) := by
  cases h with
  | ok h => exact .ok (hfg _ _ h)
  | error e => exact .error e

theorem Alike.symm {A : β → γ → Prop} {r : Except (Fault α) β} {r' : Except (Fault α) γ}
    (h : Alike A r r') :
    Alike (flip A) r' r := by
  cases h with
  | ok h => exact .ok h
  | error e => exact .error e

theorem Alike.trans {A : β → γ → Prop} {B : γ → δ → Prop} {C : β → δ → Prop}
    {r : Except (Fault α) β} {r' : Except (Fault α) γ} {r'' : Except (Fault α) δ} (h : Alike A r r')
    (h' : Alike B r' r'')
    (hAB : ∀ b c d, A b c → B c d → C b d) : Alike C r r'' := by
  cases h with
  | ok h =>
    cases h' with
    | ok h' => exact .ok (hAB _ _ _ h h')
  | error e =>
    cases h' with
    | error => exact .error e

theorem Alike.eq {r r' : Except (Fault α) β} (h : Alike Eq r r') : r = r' := by
  cases h with
  | ok h => rw [h]
  | error e => rfl

def Coupled (R : σ → τ → Prop) (act : Run α σ β) (act' : Run α τ γ) (A : β → γ → Prop) : Prop :=
  ∀ s t, R s t → Alike A (act.on s).1 (act'.on t).1 ∧ R (act.on s).2 (act'.on t).2

namespace Coupled

variable {R : σ → τ → Prop} {A B : β → γ → Prop} {C : δ → ζ → Prop} {act x : Run α σ β}
  {act' x' : Run α τ γ}
  {f : β → Run α σ δ} {f' : γ → Run α τ ζ} {s s' : σ} {t t' : τ}

theorem mono (h : Coupled R act act' A) (hAB : ∀ b c, A b c → B b c) : Coupled R act act' B :=
  fun s t hst => ⟨(h s t hst).1.mono hAB, (h s t hst).2⟩

theorem of_ok {b : β} (h : Coupled R act act' A) (hst : R s t) (hact : act.on s = (.ok b, s')) :
    ∃ c t', act'.on t = (.ok c, t') ∧ A b c ∧ R s' t' := by
  obtain ⟨hA, hR⟩ := h s t hst
  rw [hact] at hA hR
  rcases hact' : act'.on t with ⟨_ | c, t'⟩ <;> rw [hact'] at hA hR <;> cases hA
  exact ⟨c, t', rfl, ‹_›, hR⟩

theorem of_error {e : Fault α} (h : Coupled R act act' A) (hst : R s t)
    (hact : act.on s = (.error e, s')) :
    ∃ t', act'.on t = (.error e, t') ∧ R s' t' := by
  obtain ⟨hA, hR⟩ := h s t hst
  rw [hact] at hA hR
  rcases hact' : act'.on t with ⟨_ | c, t'⟩ <;> rw [hact'] at hA hR <;> cases hA
  exact ⟨t', rfl, hR⟩

theorem refl {act : Run α σ β} : Coupled Eq act act Eq := by
  rintro s _ rfl
  exact ⟨.refl (fun _ => rfl) _, rfl⟩

/-- To be coupled with itself, an operation has to keep what the relation says of a single state. -/
theorem self_iff {I : σ → Prop} {act : Run α σ β} :
    Coupled (fun s t => s = t ∧ I s) act act Eq ↔ Keeps I act := by
  rw [Keeps.iff_on]
  refine ⟨fun h s hs => (h s s ⟨rfl, hs⟩).2.2, ?_⟩
  rintro h s _ ⟨rfl, hs⟩
  exact ⟨.refl (fun _ => rfl) _, rfl, h s hs⟩

theorem pure {b : β} {c : γ} (h : A b c) :
    Coupled R (Pure.pure b : Run α σ β) (Pure.pure c : Run α τ γ) A := fun _ _ hst => ⟨.ok h, hst⟩

theorem throw {e : Fault α} : Coupled R (MonadExcept.throw e : Run α σ β)
    (MonadExcept.throw e : Run α τ γ) A :=
  fun _ _ hst => ⟨.error e, hst⟩

theorem ofExcept {r : Except (Fault α) β} {r' : Except (Fault α) γ} (h : Alike A r r') :
    Coupled R (Run.ofExcept r) (Run.ofExcept r') A := fun _ _ hst => ⟨h, hst⟩

theorem ofExcept_eq {r r' : Except (Fault α) β} (h : r = r') :
    Coupled R (Run.ofExcept r) (Run.ofExcept r') Eq :=
  ofExcept (h ▸ .refl (fun _ => rfl) r)

theorem ofExcept_map {r : Except (Fault α) β} {m : β → γ} :
    Coupled R (Run.ofExcept r) (Run.ofExcept (r.map m)) fun b c => c = m b := by
  cases r with
  | ok b => exact ofExcept (.ok rfl)
  | error e => exact ofExcept (.error e)

theorem ofExcept_ok {r : Except (Fault α) β} :
    Coupled R (Run.ofExcept r) (Run.ofExcept r) fun b c => b = c ∧ r = .ok b := by
  cases r with
  | ok b => exact ofExcept (.ok ⟨rfl, rfl⟩)
  | error e => exact ofExcept (.error e)

theorem modify {g : σ → σ} {g' : τ → τ} (h : ∀ s t, R s t → R (g s) (g' t)) :
    Coupled R (modify g : Run α σ Unit) (modify g' : Run α τ Unit) Eq :=
  fun s t hst => ⟨.ok rfl, h s t hst⟩

theorem bind (hx : Coupled R x x' A) (hf : ∀ b c, A b c → Coupled R (f b) (f' c) C) :
    Coupled R (x >>= f) (x' >>= f') C := by
  intro s t hst
  rcases h : x.on s with ⟨e | b, s'⟩
  · obtain ⟨t', h', hR⟩ := hx.of_error hst h
    rw [bind_error f h, bind_error f' h']
    exact ⟨.error e, hR⟩
  · obtain ⟨c, t', h', hA, hR⟩ := hx.of_ok hst h
    rw [bind_ok f h, bind_ok f' h']
    exact hf b c hA s' t' hR

theorem bind_map {m : β → γ} (hx : Coupled R x x' fun b c => c = m b)
    (hf : ∀ b, Coupled R (f b) (f' (m b)) C) :
    Coupled R (x >>= f) (x' >>= f') C :=
  hx.bind fun b c hc => by
    subst hc
    exact hf b

theorem bind_same {x : Run α σ β} {x' : Run α τ β} {f : β → Run α σ δ} {f' : β → Run α τ ζ}
    (hx : Coupled R x x' Eq) (hf : ∀ b, Coupled R (f b) (f' b) C) : Coupled R (x >>= f)
    (x' >>= f') C :=
  hx.bind fun b _ hb => hb ▸ hf b

theorem and_left {B : β → Prop} (h : Coupled R act act' A)
    (hB : Triple (fun _ => True) act (fun b _ => B b) fun _ => True) :
    Coupled R act act' fun b c => A b c ∧ B b := by
  intro s t hst
  refine ⟨?_, (h s t hst).2⟩
  rcases hs : act.on s with ⟨e | b, s'⟩
  · obtain ⟨t', ht, -⟩ := h.of_error hst hs
    rw [ht]
    exact .error e
  · obtain ⟨c, t', ht, hA, -⟩ := h.of_ok hst hs
    rw [ht]
    exact .ok ⟨hA, (hB s trivial).1 b s' hs⟩

theorem get_bind {f : σ → Run α σ δ} {f' : τ → Run α τ ζ}
    (h : ∀ s t, R s t → Coupled R (f s) (f' t) C) :
    Coupled R (get >>= f) (get >>= f') C := by
  intro s t hst
  rw [bind_ok f (get_on s), bind_ok f' (get_on t)]
  exact h s t hst s t hst

theorem ite {c : Prop} [Decidable c] {y : Run α σ β} {y' : Run α τ γ} (hx : Coupled R x x' A)
    (hy : Coupled R y y' A) : Coupled R (if c then x else y) (if c then x' else y') A := by
  split_ifs
  · exact hx
  · exact hy

theorem breakOff {struck : Bool} :
    Coupled R (Run.breakOff struck : Run α σ Unit) (Run.breakOff struck : Run α τ Unit) Eq := by
  cases struck with
  | true =>
    rw [breakOff_true, breakOff_true]
    exact throw
  | false =>
    rw [breakOff_false, breakOff_false]
    exact pure rfl

theorem interruptible {coming : Bool} {b : β} {c : γ} (h : Coupled R act act' A) (hA : A b c) :
    Coupled R (Run.interruptible coming b act) (Run.interruptible coming c act') A := by
  intro s t hst
  obtain ⟨hanswer, hR⟩ := h s t hst
  simp only [Run.on, Run.interruptible] at hanswer hR ⊢
  rcases hact : act s with ⟨r, s'⟩
  rcases hact' : act' t with ⟨r', t'⟩
  rw [hact, hact'] at hanswer hR
  cases hanswer with
  | ok h => exact ⟨.ok h, hR⟩
  | error e =>
    cases e with
    | interrupted =>
      cases coming with
      | true => exact ⟨.ok hA, hR⟩
      | false => exact ⟨.error _, hR⟩
    | _ => exact ⟨.error _, hR⟩

theorem zoom {υ : Type} {part : σ → ρ} {put : ρ → σ → σ} {part' : τ → υ} {put' : υ → τ → τ}
    {Q : ρ → υ → Prop}
    {act : Run α ρ β} {act' : Run α υ γ} (h : Coupled Q act act' A)
    (hpart : ∀ s t, R s t → Q (part s) (part' t))
    (hput : ∀ s t u v, R s t → Q u v → R (put u s) (put' v t)) :
    Coupled R (Run.zoom part put act) (Run.zoom part' put' act') A := fun s t hst =>
  ⟨(h _ _ (hpart s t hst)).1, hput s t _ _ hst (h _ _ (hpart s t hst)).2⟩

theorem forM {ι : Type} {f : ι → Run α σ Unit} {f' : ι → Run α τ Unit} {xs : List ι}
    (h : ∀ i ∈ xs, Coupled R (f i) (f' i) Eq) : Coupled R (xs.forM f) (xs.forM f') Eq := by
  induction xs with
  | nil => exact pure rfl
  | cons i xs ih => exact (h i (by simp)).bind_same fun _ => ih fun j hj => h j (by simp [hj])

theorem forM_map {ι κ : Type} {f : ι → Run α σ Unit} {f' : κ → Run α τ Unit} {g : ι → κ}
    {xs : List ι}
    (h : ∀ i ∈ xs, Coupled R (f i) (f' (g i)) Eq) :
    Coupled R (xs.forM f) ((xs.map g).forM f') Eq := by
  have hmap : (xs.map g).forM f' = xs.forM fun i => f' (g i) := List.forM_map ..
  rw [hmap]
  exact forM h

theorem mapM_map {ι : Type} {f : ι → Run α σ β} {f' : ι → Run α τ γ} {m : β → γ} {xs : List ι}
    (h : ∀ i ∈ xs, Coupled R (f i) (f' i) fun b c => c = m b) :
    Coupled R (xs.mapM f) (xs.mapM f') fun bs cs => cs = bs.map m := by
  induction xs with
  | nil => exact pure rfl
  | cons i xs ih =>
    rw [List.mapM_cons, List.mapM_cons]
    refine (h i (by simp)).bind_map fun b => ?_
    exact (ih fun j hj => h j (by simp [hj])).bind_map fun bs => pure rfl

theorem mapM {ι : Type} {f : ι → Run α σ β} {f' : ι → Run α τ β} {xs : List ι}
    (h : ∀ i ∈ xs, Coupled R (f i) (f' i) Eq) : Coupled R (xs.mapM f) (xs.mapM f') Eq := by
  have hid : Coupled R (xs.mapM f) (xs.mapM f') fun bs cs => cs = bs.map id :=
    mapM_map fun i hi => (h i hi).mono fun _ _ hb => hb.symm
  exact hid.mono fun bs cs hb => by rw [hb, List.map_id]

end Coupled

end Recourse.Run
