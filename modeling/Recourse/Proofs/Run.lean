import Mathlib.Tactic
import Recourse.Run

/-! Loops of checks that all succeed, and triples for operations that may fail. A triple promises
something about the state that is left behind on either exit, because later operations go on from
there. -/

namespace Recourse

variable {α σ τ β γ ε : Type}

/-! ### Checks that succeed -/

theorem ok_of_bind {x : Except ε β} {f : β → Except ε γ} {c : γ} (h : (x >>= f) = .ok c) :
    ∃ b, x = .ok b ∧ f b = .ok c := by
  cases x with
  | error e => cases h
  | ok b => exact ⟨b, rfl, h⟩

theorem ok_of_toOption {x : Except ε β} {b : β} (h : x.toOption = some b) : x = .ok b := by
  cases x with
  | error e => cases h
  | ok c => rw [Option.some.inj h]

theorem anyM_ok {f : β → Except ε Bool} {g : β → Bool} {xs : List β}
    (h : ∀ x ∈ xs, f x = .ok (g x)) :
    xs.anyM f = .ok (xs.any g) := by
  induction xs with
  | nil => rfl
  | cons x xs ih =>
    rw [List.anyM_cons, h x (by simp), ih fun y hy => h y (by simp [hy])]
    cases hg : g x <;> simp [hg] <;> rfl

theorem ok_of_forM {f : β → Except ε Unit} {xs : List β} (h : xs.forM f = .ok ()) {x : β}
    (hx : x ∈ xs) :
    f x = .ok () := by
  induction xs with
  | nil => simp at hx
  | cons y xs ih =>
    obtain ⟨_, hy, h⟩ := ok_of_bind h
    rcases List.mem_cons.mp hx with rfl | hx
    · exact hy
    · exact ih h hx

theorem forM_ok {f : β → Except ε Unit} {xs : List β} (h : ∀ x ∈ xs, f x = .ok ()) :
    xs.forM f = .ok () := by
  induction xs with
  | nil => rfl
  | cons x xs ih =>
    change f x >>= (fun _ => xs.forM f) = .ok ()
    rw [h x (by simp)]
    exact ih fun y hy => h y (by simp [hy])

theorem mapM_congr {f g : β → Except (Fault α) γ} {xs : List β} (h : ∀ x ∈ xs, f x = g x) :
    xs.mapM f = xs.mapM g := by
  induction xs with
  | nil => rfl
  | cons x xs ih =>
    rw [List.mapM_cons, List.mapM_cons, h x List.mem_cons_self,
      ih fun y hy => h y (List.mem_cons_of_mem x hy)]

theorem mapM_ok {f : β → Except ε γ} {g : β → γ} {xs : List β} (h : ∀ x ∈ xs, f x = .ok (g x)) :
    xs.mapM f = .ok (xs.map g) := by
  induction xs with
  | nil => rfl
  | cons x xs ih =>
    rw [List.mapM_cons, h x (by simp), ih fun y hy => h y (by simp [hy])]
    rfl

theorem forM_filter {f : β → Except ε Unit} {p : β → Bool} {xs : List β}
    (h : ∀ x ∈ xs, p x = false → f x = .ok ()) :
    (xs.filter p).forM f = xs.forM f := by
  induction xs with
  | nil => rfl
  | cons x xs ih =>
    have hrest := ih fun y hy => h y (by simp [hy])
    change _ = f x >>= fun _ => xs.forM f
    cases hp : p x with
    | true =>
      rw [List.filter_cons_of_pos hp, ← hrest]
      rfl
    | false =>
      rw [List.filter_cons_of_neg (by simp [hp]), h x (by simp) hp, hrest]
      rfl

theorem forall₂_of_mapM {f : β → Except ε γ} {xs : List β} {ys : List γ} (h : xs.mapM f = .ok ys) :
    List.Forall₂ (fun x y => x ∈ xs ∧ f x = .ok y) xs ys := by
  induction xs generalizing ys with
  | nil =>
    obtain rfl := Except.ok.inj h
    exact .nil
  | cons x xs ih =>
    rw [List.mapM_cons] at h
    obtain ⟨y, hy, h⟩ := ok_of_bind h
    obtain ⟨ys, hys, h⟩ := ok_of_bind h
    obtain rfl := Except.ok.inj h
    exact .cons ⟨by simp, hy⟩ ((ih hys).imp fun _ _ hx => ⟨List.mem_cons_of_mem _ hx.1, hx.2⟩)

theorem exists_map_of_mapM [Nonempty γ] {f : β → Except ε γ} {xs : List β} {ys : List γ}
    (h : xs.mapM f = .ok ys) :
    ∃ g, (∀ x ∈ xs, f x = .ok (g x)) ∧ ys = xs.map g := by
  have hok : ∀ x ∈ xs, ∃ y, f x = .ok y := by
    intro x hx
    obtain ⟨i, hi, rfl⟩ := List.mem_iff_getElem.mp hx
    have hi' : i < ys.length := (forall₂_of_mapM h).length_eq ▸ hi
    exact ⟨_, ((forall₂_of_mapM h).get hi hi').2⟩
  choose! g hg using hok
  exact ⟨g, hg, Except.ok.inj (h.symm.trans (mapM_ok hg))⟩

theorem flatten_eq_flatMap {g : β → List γ} {xs : List β} {yss : List (List γ)}
    (h : List.Forall₂ (fun x ys => ys = g x) xs yss) : yss.flatten = xs.flatMap g := by
  induction h with
  | nil => rfl
  | cons hx _ ih => rw [List.flatten_cons, List.flatMap_cons, hx, ih]

private theorem filterAuxM_ok {f : β → Except ε Bool} {g : β → Bool} {xs : List β}
    (h : ∀ x ∈ xs, f x = .ok (g x)) (acc : List β) :
    xs.filterAuxM f acc = .ok ((xs.filter g).reverse ++ acc) := by
  induction xs generalizing acc with
  | nil => rfl
  | cons x xs ih =>
    rw [List.filterAuxM, h x (by simp)]
    change xs.filterAuxM f _ = _
    rw [ih fun y hy => h y (by simp [hy])]
    cases hg : g x <;> simp [hg]

theorem filterM_ok {f : β → Except ε Bool} {g : β → Bool} {xs : List β}
    (h : ∀ x ∈ xs, f x = .ok (g x)) :
    xs.filterM f = .ok (xs.filter g) := by
  rw [List.filterM, filterAuxM_ok h]
  exact congrArg Except.ok (by simp)

private theorem sublist_of_filterAuxM {f : β → Except ε Bool} {xs acc ys : List β}
    (h : xs.filterAuxM f acc = .ok ys) : ∃ zs : List β, zs.Sublist xs ∧ ys = zs.reverse ++ acc := by
  induction xs generalizing acc with
  | nil =>
    obtain rfl : acc = ys := Except.ok.inj h
    exact ⟨[], .slnil, rfl⟩
  | cons x xs ih =>
    rw [List.filterAuxM] at h
    obtain ⟨b, -, h⟩ := ok_of_bind h
    obtain ⟨zs, hzs, rfl⟩ := ih h
    cases b with
    | false => exact ⟨zs, hzs.cons x, rfl⟩
    | true => exact ⟨x :: zs, hzs.cons_cons x, by simp⟩

theorem sublist_of_filterM {f : β → Except ε Bool} {xs ys : List β} (h : xs.filterM f = .ok ys) :
    ys.Sublist xs := by
  rw [List.filterM] at h
  obtain ⟨zs, hzs, h⟩ := ok_of_bind h
  obtain ⟨zs, hsub, rfl⟩ := sublist_of_filterAuxM hzs
  obtain rfl := Except.ok.inj h
  simpa using hsub

theorem of_anyM_false {f : β → Except ε Bool} {xs : List β} (h : xs.anyM f = .ok false) {x : β}
    (hx : x ∈ xs) :
    f x = .ok false := by
  induction xs with
  | nil => cases hx
  | cons y xs ih =>
    rw [List.anyM_cons] at h
    obtain ⟨b, hy, h⟩ := ok_of_bind h
    cases b with
    | true => cases h
    | false =>
      rcases List.mem_cons.mp hx with rfl | hx
      · exact hy
      · exact ih h hx

private theorem mem_of_filterAuxM {f : β → Except ε Bool} {xs acc ys : List β}
    (h : xs.filterAuxM f acc = .ok ys) :
    ∀ y ∈ ys, y ∈ acc ∨ f y = .ok true := by
  induction xs generalizing acc with
  | nil =>
    obtain rfl : acc = ys := Except.ok.inj h
    exact fun y hy => .inl hy
  | cons x xs ih =>
    rw [List.filterAuxM] at h
    obtain ⟨b, hb, h⟩ := ok_of_bind h
    intro y hy
    rcases ih h y hy with hy | hy
    · cases b with
      | false => exact .inl hy
      | true =>
        rcases List.mem_cons.mp hy with rfl | hy
        · exact .inr hb
        · exact .inl hy
    · exact .inr hy

theorem of_mem_filterM {f : β → Except ε Bool} {xs ys : List β} (h : xs.filterM f = .ok ys) {y : β}
    (hy : y ∈ ys) :
    f y = .ok true := by
  rw [List.filterM] at h
  obtain ⟨zs, hzs, h⟩ := ok_of_bind h
  obtain rfl := Except.ok.inj h
  simpa using mem_of_filterAuxM hzs y (List.mem_reverse.mp hy)

/-! ### Checks that fail -/

theorem error_of_bind {x : Except ε β} {f : β → Except ε γ} {e : ε} (h : (x >>= f) = .error e) :
    x = .error e ∨ ∃ b, x = .ok b ∧ f b = .error e := by
  cases x with
  | error e' =>
    obtain rfl := Except.error.inj h
    exact .inl rfl
  | ok b => exact .inr ⟨b, rfl, h⟩

theorem error_of_forM {f : β → Except ε Unit} {xs : List β} {e : ε} (h : xs.forM f = .error e) :
    ∃ x ∈ xs, f x = .error e := by
  induction xs with
  | nil => cases h
  | cons x xs ih =>
    rcases error_of_bind h with hx | ⟨_, -, h⟩
    · exact ⟨x, List.mem_cons_self, hx⟩
    · obtain ⟨y, hy, hfy⟩ := ih h
      exact ⟨y, List.mem_cons_of_mem x hy, hfy⟩

theorem error_of_mapM {f : β → Except ε γ} {xs : List β} {e : ε} (h : xs.mapM f = .error e) :
    ∃ x ∈ xs, f x = .error e := by
  induction xs with
  | nil => cases h
  | cons x xs ih =>
    rw [List.mapM_cons] at h
    rcases error_of_bind h with hx | ⟨_, -, h⟩
    · exact ⟨x, List.mem_cons_self, hx⟩
    rcases error_of_bind h with h | ⟨_, -, h⟩
    · obtain ⟨y, hy, hfy⟩ := ih h
      exact ⟨y, List.mem_cons_of_mem x hy, hfy⟩
    · cases h

/-! ### Checks seen through a map -/

section

variable {β γ ε : Type} {f : β → Except ε Bool} {g : γ → Except ε Bool} {m : γ → β}

theorem anyM_map (h : ∀ x, f (m x) = g x) (xs : List γ) : (xs.map m).anyM f = xs.anyM g := by
  induction xs with
  | nil => rfl
  | cons x xs ih => rw [List.map_cons, List.anyM_cons, List.anyM_cons, h, ih]

private theorem filterAuxM_map (h : ∀ x, f (m x) = g x) (xs acc : List γ) :
    (xs.map m).filterAuxM f (acc.map m) = (xs.filterAuxM g acc).map (List.map m) := by
  induction xs generalizing acc with
  | nil => rfl
  | cons x xs ih =>
    rw [List.map_cons, List.filterAuxM, List.filterAuxM, h]
    rcases g x with e | b
    · rfl
    · cases b with
      | true => exact ih (x :: acc)
      | false => exact ih acc

theorem filterM_map (h : ∀ x, f (m x) = g x) (xs : List γ) :
    (xs.map m).filterM f = (xs.filterM g).map (List.map m) := by
  rw [List.filterM, List.filterM]
  have haux := filterAuxM_map h xs []
  rw [List.map_nil] at haux
  rw [haux]
  cases xs.filterAuxM g [] with
  | error e => rfl
  | ok ys => exact congrArg Except.ok List.map_reverse.symm

end

/-! ### One step after another -/

namespace Run

variable {s s' : σ} {b : β}

theorem bind_ok {x : Run α σ β} (f : β → Run α σ γ) (h : x.on s = (.ok b, s')) :
    (x >>= f).on s = (f b).on s' := by
  change (x >>= f) s = _
  simp only [bind, ExceptT.bind, ExceptT.mk, StateT.bind, show x s = _ from h]
  rfl

theorem bind_error {x : Run α σ β} {e : Fault α} (f : β → Run α σ γ) (h : x.on s = (.error e, s')) :
    (x >>= f).on s = (.error e, s') := by
  change (x >>= f) s = _
  simp only [bind, ExceptT.bind, ExceptT.mk, StateT.bind, show x s = _ from h]
  rfl

theorem tryCatch_ok {x : Run α σ β} (handle : Fault α → Run α σ β) (h : x.on s = (.ok b, s')) :
    (tryCatch x handle).on s = (.ok b, s') := by
  change (ExceptT.tryCatch x handle) s = _
  simp only [bind, ExceptT.tryCatch, ExceptT.mk, StateT.bind, show x s = _ from h]
  rfl

theorem tryCatch_error {x : Run α σ β} {e : Fault α} (handle : Fault α → Run α σ β)
    (h : x.on s = (.error e, s')) :
    (tryCatch x handle).on s = (handle e).on s' := by
  change (ExceptT.tryCatch x handle) s = _
  simp only [bind, ExceptT.tryCatch, ExceptT.mk, StateT.bind, show x s = _ from h]
  rfl

theorem error_of_bind {x : Run α σ β} {f : β → Run α σ γ} {e : Fault α}
    (h : (x >>= f).on s = (.error e, s')) :
    x.on s = (.error e, s') ∨ ∃ b t, x.on s = (.ok b, t) ∧ (f b).on t = (.error e, s') := by
  rcases hx : x.on s with ⟨e' | b, t⟩
  · rw [bind_error f hx] at h
    obtain ⟨he, rfl⟩ := Prod.mk.inj h
    obtain rfl := Except.error.inj he
    exact .inl rfl
  · exact .inr ⟨b, t, rfl, (bind_ok f hx).symm.trans h⟩

theorem exists_of_bind {x : Run α σ β} {f : β → Run α σ γ} {c : γ}
    (h : (x >>= f).on s = (.ok c, s')) :
    ∃ b t, x.on s = (.ok b, t) ∧ (f b).on t = (.ok c, s') := by
  rcases hx : x.on s with ⟨e | b, t⟩
  · rw [bind_error f hx] at h
    cases h
  · exact ⟨b, t, rfl, (bind_ok f hx).symm.trans h⟩

@[simp] theorem pure_on (b : β) (s : σ) : (pure b : Run α σ β).on s = (.ok b, s) := rfl

@[simp] theorem get_on (s : σ) : (get : Run α σ σ).on s = (.ok s, s) := rfl

@[simp] theorem modify_on (f : σ → σ) (s : σ) :
    (modify f : Run α σ Unit).on s = (.ok (), f s) := rfl

@[simp] theorem throw_on (e : Fault α) (s : σ) : (throw e : Run α σ β).on s = (.error e, s) := rfl

@[simp] theorem ofExcept_on (r : Except (Fault α) β) (s : σ) : (ofExcept r).on s = (r, s) := rfl

@[simp] theorem breakOff_on (struck : Bool) (s : σ) : (breakOff struck : Run α σ Unit).on s =
    (if struck then .error .interrupted else .ok (), s) := by
  cases struck <;> rfl

theorem breakOff_false : (breakOff false : Run α σ Unit) = pure () := rfl

theorem breakOff_true : (breakOff true : Run α σ Unit) = throw .interrupted := rfl

theorem eq_of_breakOff {struck : Bool}
    (h : (breakOff struck : Run α σ Unit).on s = (.ok (), s')) : s = s' := by
  cases struck <;> cases h
  rfl

theorem of_breakOff {struck : Bool} {f : Unit → Run α σ γ} {c : γ}
    (h : (breakOff struck >>= f).on s = (.ok c, s')) :
    struck = false ∧ (f ()).on s = (.ok c, s') := by
  cases struck with
  | true => cases h
  | false => exact ⟨rfl, h⟩

theorem interruptible_of_ok (coming : Bool) (answer : β) {act : Run α σ β}
    (h : act.on s = (.ok b, s')) : (interruptible coming answer act).on s = (.ok b, s') := by
  simp only [Run.on, interruptible] at h ⊢
  rw [h]

theorem interruptible_of_interrupted (answer : β) {act : Run α σ β}
    (h : act.on s = (.error .interrupted, s')) :
    (interruptible Bool.true answer act).on s = (.ok answer, s') := by
  simp only [Run.on, interruptible] at h ⊢
  rw [h]
  rfl

theorem interruptible_of_error (coming : Bool) (answer : β) {act : Run α σ β} {e : Fault α}
    (h : act.on s = (.error e, s')) :
    ∃ r, (interruptible coming answer act).on s = (r, s') ∧
      (r = .error e ∨ e = .interrupted ∧ r = .ok answer) := by
  simp only [Run.on, interruptible] at h ⊢
  rw [h]
  cases e with
  | interrupted =>
    cases coming with
    | true => exact ⟨_, rfl, .inr ⟨rfl, rfl⟩⟩
    | false => exact ⟨_, rfl, .inl rfl⟩
  | _ => exact ⟨_, rfl, .inl rfl⟩

/-- An answer is that of the operation, or it is the one that was due to an interrupt. -/
theorem of_interruptible {coming : Bool} {answer : β} {act : Run α σ β}
    (h : (interruptible coming answer act).on s = (.ok b, s')) :
    act.on s = (.ok b, s') ∨
      coming = true ∧ b = answer ∧ act.on s = (.error .interrupted, s') := by
  simp only [Run.on, interruptible] at h ⊢
  split at h
  · next hact =>
    cases coming with
    | true =>
      cases h
      exact .inr ⟨rfl, rfl, hact⟩
    | false => cases h
  · exact .inl h

/-- A fault is that of the operation, and no interrupt that was on its way. -/
theorem error_of_interruptible {coming : Bool} {answer : β} {act : Run α σ β} {e : Fault α}
    (h : (interruptible coming answer act).on s = (.error e, s')) :
    act.on s = (.error e, s') ∧ (coming = true → e ≠ .interrupted) := by
  simp only [Run.on, interruptible] at h ⊢
  split at h
  · next hact =>
    cases coming with
    | true => cases h
    | false =>
      cases h
      exact ⟨hact, nofun⟩
  · next hact =>
    refine ⟨h, fun _ he => ?_⟩
    subst he
    exact hact _ h

theorem ofExcept_bind {r : Except (Fault α) β} (h : r = .ok b) {f : β → Run α σ γ} :
    (ofExcept r >>= f).on s = (f b).on s := by
  rw [h]
  exact bind_ok _ (ofExcept_on _ _)

@[simp] theorem zoom_on (part : σ → τ) (put : τ → σ → σ) (act : Run α τ β) (s : σ) :
    (Run.zoom part put act).on s = ((act.on (part s)).1, put (act.on (part s)).2 s) := rfl

theorem on_of_isOk {act : Run α σ Unit} (h : (act.on s).1.isOk = true) :
    act.on s = (.ok (), (act.on s).2) := by
  rcases hact : act.on s with ⟨_ | _, t⟩
  · rw [hact] at h
    cases h
  · rfl

theorem on_of_answer {act : Run α σ β} (h : (act.on s).1.toOption = some b) :
    act.on s = (.ok b, (act.on s).2) := by
  rcases hact : act.on s with ⟨_ | c, t⟩
  · rw [hact] at h
    cases h
  · rw [hact] at h
    cases h
    rfl

/-! ### Triples -/

/-- From a state with `P`, an operation that answers leaves a state with `Q`, and one that fails
leaves a state with `E`. -/
def Triple (P : σ → Prop) (act : Run α σ β) (Q : β → σ → Prop) (E : σ → Prop) : Prop :=
  ∀ s, P s → (∀ b s', act.on s = (.ok b, s') → Q b s') ∧ ∀ e s', act.on s = (.error e, s') → E s'

/-- An operation that keeps a property of the state, however it ends. -/
def Keeps (I : σ → Prop) (act : Run α σ β) : Prop := Triple I act (fun _ => I) I

namespace Triple

variable {P P' I E E' : σ → Prop} {Q Q' : β → σ → Prop} {R : γ → σ → Prop}

theorem conseq {act : Run α σ β} (h : Triple P act Q E) (hP : ∀ s, P' s → P s)
    (hQ : ∀ b s, Q b s → Q' b s) (hE : ∀ s, E s → E' s) : Triple P' act Q' E' := fun s hs =>
  ⟨fun b s' hrun => hQ b s' ((h s (hP s hs)).1 b s' hrun), fun e s' hrun =>
    hE s' ((h s (hP s hs)).2 e s' hrun)⟩

theorem and {act : Run α σ β} (h : Triple P act Q E) (h' : Triple P' act Q' E') :
    Triple (fun s => P s ∧ P' s) act (fun b s => Q b s ∧ Q' b s) fun s => E s ∧ E' s := fun s hs =>
  ⟨fun b s' hrun => ⟨(h s hs.1).1 b s' hrun, (h' s hs.2).1 b s' hrun⟩,
    fun e s' hrun => ⟨(h s hs.1).2 e s' hrun, (h' s hs.2).2 e s' hrun⟩⟩

theorem pure (h : ∀ s, P s → Q b s) : Triple P (Pure.pure b : Run α σ β) Q E := by
  refine fun s hs => ⟨fun b' s' hrun => ?_, fun e s' hrun => ?_⟩ <;> cases hrun
  exact h s hs

theorem throw {e : Fault α} (h : ∀ s, P s → E s) :
    Triple P (MonadExcept.throw e : Run α σ β) Q E := by
  refine fun s hs => ⟨fun b' s' hrun => ?_, fun e s' hrun => ?_⟩ <;> cases hrun
  exact h s hs

theorem modify {f : σ → σ} {Q : Unit → σ → Prop} (h : ∀ s, P s → Q () (f s)) :
    Triple P (modify f : Run α σ Unit) Q E := by
  refine fun s hs => ⟨fun b' s' hrun => ?_, fun e s' hrun => ?_⟩ <;> cases hrun
  exact h s hs

theorem set {t : σ} {Q : Unit → σ → Prop} (h : ∀ s, P s → Q () t) :
    Triple P (MonadState.set t : Run α σ Unit) Q E := by
  refine fun s hs => ⟨fun b' s' hrun => ?_, fun e s' hrun => ?_⟩ <;> cases hrun
  exact h s hs

theorem and_pure {act : Run α σ β} {p : Prop} (h : Triple P act Q E) (hp : p) :
    Triple P act (fun b s => Q b s ∧ p) E :=
  h.conseq (fun _ hs => hs) (fun _ _ hs => ⟨hs, hp⟩) fun _ hs => hs

theorem of_and {act : Run α σ β} {p : Prop} (h : p → Triple P act Q E) :
    Triple (fun s => P s ∧ p) act Q E := fun s hs => h hs.2 s hs.1

theorem ofExcept {r : Except (Fault α) β} (h : ∀ s b, P s → r = .ok b → Q b s)
    (hE : ∀ s, P s → E s) :
    Triple P (Run.ofExcept r) Q E := by
  refine fun s hs => ⟨fun b' s' hrun => ?_, fun e s' hrun => ?_⟩ <;> cases hrun
  · exact h s b' hs rfl
  · exact hE s hs

theorem bind {x : Run α σ β} {f : β → Run α σ γ} (hx : Triple P x Q E)
    (hf : ∀ b, Triple (Q b) (f b) R E) :
    Triple P (x >>= f) R E := by
  intro s hs
  obtain ⟨hok, herror⟩ := hx s hs
  rcases h : x.on s with ⟨e | b, s'⟩
  · rw [bind_error f h]
    refine ⟨fun c t hrun => ?_, fun e' t hrun => ?_⟩ <;> cases hrun
    exact herror e s' h
  · rw [bind_ok f h]
    exact hf b s' (hok b s' h)

theorem breakOff {struck : Bool} {Q : Unit → σ → Prop} (h : struck = false → ∀ s, P s → Q () s)
    (hE : struck = true → ∀ s, P s → E s) :
    Triple P (Run.breakOff struck : Run α σ Unit) Q E := by
  cases struck with
  | true =>
    rw [breakOff_true]
    exact throw (hE rfl)
  | false =>
    rw [breakOff_false]
    exact pure (h rfl)

theorem interruptible {coming : Bool} {answer : β} {act : Run α σ β} (h : Triple P act Q E)
    (hE : coming = true → ∀ s, E s → Q answer s) :
    Triple P (Run.interruptible coming answer act) Q E := by
  intro s hs
  obtain ⟨hok, herror⟩ := h s hs
  refine ⟨fun b s' hrun => ?_, fun e s' hrun => herror e s' (error_of_interruptible hrun).1⟩
  obtain hact | ⟨hcoming, rfl, hact⟩ := of_interruptible hrun
  · exact hok b s' hact
  · exact hE hcoming s' (herror _ s' hact)

theorem throw_bind {e : Fault α} {f : β → Run α σ γ} (h : ∀ s, P s → E s) :
    Triple P ((MonadExcept.throw e : Run α σ β) >>= f) R E :=
  bind (Q := fun _ _ => False) (throw h) fun _ _ hs => hs.elim

theorem tryCatch {act : Run α σ β} {handle : Fault α → Run α σ β} (h : Triple P act Q E)
    (hhandle : ∀ e, Triple E (handle e) Q E') :
    Triple P (MonadExcept.tryCatch act handle) Q E' := by
  intro s hs
  obtain ⟨hok, herror⟩ := h s hs
  rcases hrun : act.on s with ⟨e | b, s'⟩
  · rw [tryCatch_error handle hrun]
    exact hhandle e s' (herror e s' hrun)
  · rw [tryCatch_ok handle hrun]
    refine ⟨fun b' t hb => ?_, fun e t he => ?_⟩
    · cases hb
      exact hok b s' hrun
    · cases he

theorem get_bind {f : σ → Run α σ γ} (h : ∀ s, P s → Triple (· = s) (f s) R E) :
    Triple P (get >>= f) R E := by
  intro s hs
  rw [bind_ok f (get_on s)]
  exact h s hs s rfl

theorem get_bind_any {f : σ → Run α σ γ} (h : ∀ s, Triple P (f s) R E) : Triple P (get >>= f) R E :=
  get_bind fun s hs t ht => h s t (ht ▸ hs)

theorem zoom {part : σ → τ} {put : τ → σ → σ} {act : Run α τ β}
    (h : ∀ s, P s → Triple (· = part s) act (fun b t => Q b (put t s)) fun t => E (put t s)) :
    Triple P (Run.zoom part put act) Q E := by
  intro s hs
  obtain ⟨hok, herror⟩ := h s hs _ rfl
  rw [zoom_on]
  refine ⟨fun b s' hrun => ?_, fun e s' hrun => ?_⟩ <;> obtain ⟨hr, rfl⟩ := Prod.mk.inj hrun
  · exact hok b _ (Prod.ext hr rfl)
  · exact herror e _ (Prod.ext hr rfl)

theorem zoom_conseq {part : σ → τ} {put : τ → σ → σ} {act : Run α τ β} {J F : τ → Prop}
    {S : β → τ → Prop} (h : Triple J act S F) (hP : ∀ s, P s → J (part s))
    (hQ : ∀ s b t, P s → S b t → Q b (put t s))
    (hE : ∀ s t, P s → F t → E (put t s)) : Triple P (Run.zoom part put act) Q E :=
  zoom fun s hs t ht =>
    have hact : Triple J act (fun b t => Q b (put t s)) fun t => E (put t s) :=
      h.conseq (fun _ ht => ht) (fun b t => hQ s b t hs) fun t => hE s t hs
    hact t (ht ▸ hP s hs)

theorem forM {ι : Type} {f : ι → Run α σ Unit} {xs : List ι}
    (h : ∀ x ∈ xs, Triple I (f x) (fun _ => I) E) : Triple I (xs.forM f) (fun _ => I) E := by
  induction xs with
  | nil => exact Triple.pure fun _ hs => hs
  | cons x xs ih => exact bind (h x (by simp)) fun _ => ih fun y hy => h y (by simp [hy])

/-- A loop in which one round brings about what no round undoes. -/
theorem forM_mem {ι : Type} {f : ι → Run α σ Unit} {xs : List ι} {x : ι} {J : σ → Prop}
    (hx : x ∈ xs) (hI : ∀ y, y ≠ x → Triple I (f y) (fun _ => I) E)
    (hx' : Triple I (f x) (fun _ => J) E)
    (hJ : ∀ y, Triple J (f y) (fun _ => J) E) : Triple I (xs.forM f) (fun _ => J) E := by
  induction xs with
  | nil => cases hx
  | cons y xs ih =>
    by_cases hy : y = x
    · subst hy
      exact bind hx' fun _ => forM fun z _ => hJ z
    · exact bind (hI y hy) fun _ => ih (List.mem_of_ne_of_mem (Ne.symm hy) hx)

theorem mapM {ι : Type} {f : ι → Run α σ β} {S : ι → β → Prop} {xs : List ι}
    (h : ∀ x ∈ xs, Triple I (f x) (fun b s => I s ∧ S x b) E) :
    Triple I (xs.mapM f) (fun bs s => I s ∧ List.Forall₂ S xs bs) E := by
  induction xs with
  | nil => exact Triple.pure fun _ hs => ⟨hs, .nil⟩
  | cons x xs ih =>
    rw [List.mapM_cons]
    refine bind (h x (by simp)) fun b => ?_
    refine fun s hs => bind (ih fun y hy => h y (by simp [hy])) (fun bs => ?_) s hs.1
    exact Triple.pure fun _ hs' => ⟨hs'.1, .cons hs.2 hs'.2⟩

/-- A loop whose answers are added, one by one, to what is known. -/
theorem mapM_grow {ι : Type} {f : ι → Run α σ β} {J : List β → σ → Prop} {xs : List ι}
    {known : List β} (h : ∀ x ∈ xs, ∀ known, Triple (J known) (f x) (fun b => J (b :: known)) E)
    (hmono : ∀ known known' s, known' ⊆ known → J known s → J known' s) :
    Triple (J known) (xs.mapM f) (fun bs => J (bs ++ known)) E := by
  induction xs generalizing known with
  | nil => exact pure fun _ hs => hs
  | cons x xs ih =>
    rw [List.mapM_cons]
    refine bind (h x (by simp) known) fun b => bind (ih fun y hy => h y (by simp [hy])) fun bs => ?_
    refine pure fun s hs => hmono _ _ s (fun c hc => ?_) hs
    simp only [List.cons_append, List.mem_cons, List.mem_append] at hc ⊢
    tauto

end Triple

namespace Keeps

variable {I : σ → Prop}

/-- Keeping a property is about the state that is left behind, whatever the answer is. -/
theorem iff_on {act : Run α σ β} : Keeps I act ↔ ∀ s, I s → I (act.on s).2 := by
  refine forall₂_congr fun s _ => ?_
  rcases act.on s with ⟨e | b, t⟩
  · refine ⟨fun h => h.2 e t rfl, fun h => ⟨fun b t' hrun => ?_, fun e' t' hrun => ?_⟩⟩ <;>
      cases hrun
    exact h
  · refine ⟨fun h => h.1 b t rfl, fun h => ⟨fun b' t' hrun => ?_, fun e t' hrun => ?_⟩⟩ <;>
      cases hrun
    exact h

theorem pure : Keeps I (Pure.pure b : Run α σ β) := Triple.pure fun _ hs => hs

theorem throw {e : Fault α} : Keeps I (MonadExcept.throw e : Run α σ β) :=
  Triple.throw fun _ hs => hs

theorem ofExcept {r : Except (Fault α) β} : Keeps I (Run.ofExcept r) :=
  Triple.ofExcept (fun _ _ hs _ => hs) fun _ hs => hs

theorem bind {x : Run α σ β} {f : β → Run α σ γ} (hx : Keeps I x) (hf : ∀ b, Keeps I (f b)) :
    Keeps I (x >>= f) :=
  Triple.bind hx hf

theorem ite {c : Prop} [Decidable c] {x y : Run α σ β} (hx : Keeps I x) (hy : Keeps I y) :
    Keeps I (if c then x else y) := by
  split_ifs
  · exact hx
  · exact hy

theorem breakOff {struck : Bool} : Keeps I (Run.breakOff struck : Run α σ Unit) :=
  Triple.breakOff (fun _ _ hs => hs) fun _ _ hs => hs

theorem interruptible {coming : Bool} {answer : β} {act : Run α σ β} (h : Keeps I act) :
    Keeps I (Run.interruptible coming answer act) := Triple.interruptible h fun _ _ hs => hs

theorem get_bind {f : σ → Run α σ γ} (h : ∀ s, Keeps I (f s)) : Keeps I (get >>= f) :=
  Triple.get_bind_any h

theorem true {act : Run α σ β} : Keeps (fun _ => True) act := iff_on.mpr fun _ _ => trivial

theorem and {J : σ → Prop} {act : Run α σ β} (h : Keeps I act) (h' : Keeps J act) :
    Keeps (fun s => I s ∧ J s) act :=
  iff_on.mpr fun s hs => ⟨iff_on.mp h s hs.1, iff_on.mp h' s hs.2⟩

theorem of_triple {act : Run α σ β} {Q : β → σ → Prop}
    (h : Triple I act (fun b s => I s ∧ Q b s) I) : Keeps I act :=
  h.conseq (fun _ hs => hs) (fun _ _ hs => hs.1) fun _ hs => hs

end Keeps

end Run

/-! ### Entries of a list -/

theorem resolve_natCast (k n : ℕ) : resolve (k : ℤ) n = if k < n then some k else none := by
  unfold resolve
  have hk : ¬ (k : ℤ) < 0 := by omega
  simp only [hk, if_false, Int.toNat_natCast]
  by_cases h : k < n
  · rw [if_pos h, if_pos (by omega)]
  · rw [if_neg h, if_neg (by omega)]

theorem entryFrom_natCast (xs : List β) (k : ℕ) :
    (entryFrom xs (k : ℤ) : Except (Fault α) β) = entryAt xs k := by
  unfold entryFrom entryAt
  rw [resolve_natCast]
  by_cases h : k < xs.length <;> simp [h]

theorem entryAt_ok {xs : List β} {k : ℕ} {x : β} (h : (entryAt xs k : Except (Fault α) β) = .ok x) :
    xs[k]? = some x := by
  unfold entryAt at h
  rcases hk : xs[k]? with _ | y
  · rw [hk] at h
    cases h
  · rw [hk] at h
    cases h
    rfl

theorem entryAt_map (f : β → γ) (xs : List β) (i : ℕ) :
    (entryAt (xs.map f) i : Except (Fault α) γ) = (entryAt xs i).map f := by
  rw [entryAt, entryAt, List.getElem?_map]
  cases xs[i]? <;> rfl

/-! ### First entries -/

theorem exists_leading_append (limit : Option ℕ) (xs : List β) :
    ∃ rest, leading limit xs ++ rest = xs := by
  cases limit with
  | none => exact ⟨[], xs.append_nil⟩
  | some n => exact ⟨xs.drop n, xs.take_append_drop n⟩

/-! ### Lists of one length -/

theorem stretch?_eq {xs : List β} {n : ℕ} (h : xs.length = n) : stretch? n xs = some xs := by
  subst h
  match xs with
  | [] => rfl
  | [_] => rfl
  | _ :: _ :: _ => simp [stretch?]

theorem stretch?_map (f : β → γ) (n : ℕ) (xs : List β) :
    stretch? n (xs.map f) = (stretch? n xs).map (List.map f) := by
  rcases xs with _ | ⟨x, _ | ⟨y, xs⟩⟩
  · simp only [stretch?, List.map_nil, List.length_nil]
    split_ifs <;> rfl
  · simp only [stretch?, List.map_cons, List.map_nil, Option.map_some, List.map_replicate]
  · simp only [stretch?, List.map_cons, List.length_cons, List.length_map]
    split_ifs <;> rfl

theorem commonLength_eq {lengths : List ℕ} {n : ℕ} (hne : lengths ≠ []) (h : ∀ m ∈ lengths, m = n) :
    commonLength lengths = n := by
  obtain ⟨m, ms, rfl⟩ := List.exists_cons_of_ne_nil hne
  by_cases hn : n = 1
  · have : (m :: ms).find? (· ≠ 1) = none := List.find?_eq_none.mpr fun k hk => by simp [h k hk, hn]
    rw [commonLength, this, hn]
    rfl
  · simp [commonLength, h m (by simp), hn]

end Recourse
