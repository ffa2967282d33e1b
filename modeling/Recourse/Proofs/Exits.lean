import Recourse.Proofs.Run

/-! Exits with some faults. An operation may leave behind something orderly where it fails for one
reason and not where it fails for another, so a triple may be confined to some faults, and a check
may be known not to fail with them. -/

namespace Recourse

variable {α σ β ζ ι : Type}

/-- Faults that come up where models are solved, where something is drawn or where work is broken
off. -/
inductive Fault.OfWork : Fault α → Prop
  | unsolved (failure : SolveFailure α) : OfWork (.unsolved failure)
  | distribution : OfWork (.value .distribution)
  | population : OfWork (.value .population)
  | interrupted : OfWork .interrupted

/-! ### Checks -/

def Avoids (kind : Fault α → Prop) (r : Except (Fault α) β) : Prop := ∀ e, r = .error e → ¬ kind e

namespace Avoids

variable {kind : Fault α → Prop}

theorem ok (b : β) : Avoids kind (.ok b : Except (Fault α) β) := fun _ h => nomatch h

theorem error {e : Fault α} (h : ¬ kind e) : Avoids kind (.error e : Except (Fault α) β) :=
  fun _ he =>
  Except.error.inj he ▸ h

theorem bind {x : Except (Fault α) β} {f : β → Except (Fault α) ζ} (hx : Avoids kind x)
    (hf : ∀ b, Avoids kind (f b)) :
    Avoids kind (x >>= f) := by
  intro e h
  rcases error_of_bind h with h | ⟨b, -, h⟩
  · exact hx e h
  · exact hf b e h

theorem ite {p : Prop} [Decidable p] {x y : Except (Fault α) β} (hx : Avoids kind x)
    (hy : Avoids kind y) :
    Avoids kind (if p then x else y) := by
  split_ifs
  · exact hx
  · exact hy

theorem mapM {f : ι → Except (Fault α) β} {xs : List ι} (h : ∀ x ∈ xs, Avoids kind (f x)) :
    Avoids kind (xs.mapM f) := by
  intro e he
  obtain ⟨x, hx, he⟩ := error_of_mapM he
  exact h x hx e he

theorem anyM {f : ι → Except (Fault α) Bool} {xs : List ι} (h : ∀ x ∈ xs, Avoids kind (f x)) :
    Avoids kind (xs.anyM f) := by
  induction xs with
  | nil => exact ok false
  | cons x xs ih =>
    rw [List.anyM_cons]
    refine bind (h x List.mem_cons_self) fun b => ?_
    cases b with
    | true => exact ok true
    | false => exact ih fun y hy => h y (List.mem_cons_of_mem x hy)

theorem filterM {f : ι → Except (Fault α) Bool} {xs : List ι} (h : ∀ x ∈ xs, Avoids kind (f x)) :
    Avoids kind (xs.filterM f) := by
  have haux (xs acc : List ι) (h : ∀ x ∈ xs, Avoids kind (f x)) :
      Avoids kind (xs.filterAuxM f acc) := by
    induction xs generalizing acc with
    | nil => exact ok acc
    | cons x xs ih =>
      exact bind (h x List.mem_cons_self) fun _ => ih _ fun y hy => h y (List.mem_cons_of_mem x hy)
  exact bind (haux xs [] h) fun ys => ok ys.reverse

theorem entryAt {xs : List β} {i : ℕ} (h : ¬ kind .position) :
    Avoids kind (Recourse.entryAt xs i) := by
  unfold Recourse.entryAt
  split
  · exact ok _
  · exact error h

theorem entryFrom {xs : List β} {i : ℤ} (h : ¬ kind .position) :
    Avoids kind (Recourse.entryFrom xs i) := by
  unfold Recourse.entryFrom
  split
  · exact ok _
  · exact error h

end Avoids

/-! ### Operations -/

namespace Run

/-- A triple that promises nothing where a fault of another kind comes up. -/
def TripleOn (kind : Fault α → Prop) (P : σ → Prop) (act : Run α σ β) (Q : β → σ → Prop)
    (E : σ → Prop) : Prop :=
  ∀ s, P s → (∀ b s', act.on s = (.ok b, s') → Q b s') ∧
    ∀ e s', act.on s = (.error e, s') → kind e → E s'

namespace TripleOn

variable {ζ : Type} {kind : Fault α → Prop} {P E : σ → Prop} {Q : β → σ → Prop} {R : ζ → σ → Prop}

theorem of_triple {act : Run α σ β} (h : Triple P act Q E) : TripleOn kind P act Q E := fun s hs =>
  ⟨(h s hs).1, fun e s' hrun _ => (h s hs).2 e s' hrun⟩

theorem conseq {act : Run α σ β} {Q' : β → σ → Prop} {E' : σ → Prop} (h : TripleOn kind P act Q E)
    (hQ : ∀ b s, Q b s → Q' b s) (hE : ∀ s, E s → E' s) : TripleOn kind P act Q' E' := fun s hs =>
  ⟨fun b s' hrun => hQ b s' ((h s hs).1 b s' hrun), fun e s' hrun he =>
    hE s' ((h s hs).2 e s' hrun he)⟩

theorem bind {x : Run α σ β} {f : β → Run α σ ζ} (hx : TripleOn kind P x Q E)
    (hf : ∀ b, TripleOn kind (Q b) (f b) R E) :
    TripleOn kind P (x >>= f) R E := by
  intro s hs
  obtain ⟨hok, herror⟩ := hx s hs
  rcases h : x.on s with ⟨e | b, s'⟩
  · rw [bind_error f h]
    refine ⟨fun c t hrun => ?_, fun e' t hrun => ?_⟩ <;> cases hrun
    exact herror e s' h
  · rw [bind_ok f h]
    exact hf b s' (hok b s' h)

/-- Where an interrupt strikes, the state is as the fault leaves it. -/
theorem interruptible {coming : Bool} {answer : β} {act : Run α σ β} (h : TripleOn kind P act Q E)
    (hkind : kind .interrupted) (hE : coming = true → ∀ s, E s → Q answer s) :
    TripleOn kind P (Run.interruptible coming answer act) Q E := by
  intro s hs
  obtain ⟨hok, herror⟩ := h s hs
  refine ⟨fun b s' hrun => ?_, fun e s' hrun => herror e s' (error_of_interruptible hrun).1⟩
  obtain hact | ⟨hcoming, rfl, hact⟩ := of_interruptible hrun
  · exact hok b s' hact
  · exact hE hcoming s' (herror _ s' hact hkind)

theorem get_bind_any {f : σ → Run α σ ζ} (h : ∀ s, TripleOn kind P (f s) R E) :
    TripleOn kind P (get >>= f) R E := by
  intro s hs
  rw [bind_ok f (get_on s)]
  exact h s s hs

theorem ite {p : Prop} [Decidable p] {x y : Run α σ β} (hx : TripleOn kind P x Q E)
    (hy : TripleOn kind P y Q E) :
    TripleOn kind P (if p then x else y) Q E := by
  split_ifs
  · exact hx
  · exact hy

theorem ofExcept {r : Except (Fault α) β} (h : ∀ s b, P s → r = .ok b → Q b s)
    (hkind : Avoids kind r) :
    TripleOn kind P (Run.ofExcept r) Q E := by
  refine fun s hs => ⟨fun b' s' hrun => ?_, fun e s' hrun he => ?_⟩ <;> cases hrun
  · exact h s b' hs rfl
  · exact absurd he (hkind e rfl)

end TripleOn

end Run

end Recourse
