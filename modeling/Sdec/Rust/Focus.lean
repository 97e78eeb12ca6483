import Sdec.Rust.Outcome

/-!
# Calls on a part of the state

`Call.focus` runs a call on a part of the state, which it reads and puts back, also when the call
fails. `Call.after` is the state that a call leaves behind, whether it fails or not.
-/

namespace Rust

variable {ε σ τ α : Type}

/-- A call on the part of the state that `read` finds and `write` puts back. -/
def Call.focus (read : σ → τ) (write : τ → σ → σ) (x : Call ε τ α) : Call ε σ α := fun s =>
  match x (read s) with
  | .ok a t => .ok a (write t s)
  | .error e t => .error e (write t s)

/-- The state that a call leaves behind. -/
def Call.after (x : Call ε σ α) (s : σ) : σ :=
  match x s with
  | .ok _ s' => s'
  | .error _ s' => s'

/-- Whether a call returns an `Err`. -/
def Call.returnsErr (x : Call ε σ α) (s : σ) : Bool :=
  match x s with
  | .ok _ _ => false
  | .error (.err _) _ => true
  | .error .panic _ => false

variable {read : σ → τ} {write : τ → σ → σ} {x : Call ε τ α} {y : Call ε σ α} {s s' : σ} {t : τ}
  {a : α} {e : Fault ε}

theorem after_of_ok (h : y s = .ok a s') : y.after s = s' := by
  unfold Call.after
  rw [h]

theorem after_of_error (h : y s = .error e s') : y.after s = s' := by
  unfold Call.after
  rw [h]

theorem exists_of_returns_err (h : y.returnsErr s = true) :
    ∃ error, y s = .error (.err error) (y.after s) := by
  unfold Call.returnsErr at h
  unfold Call.after
  cases hrun : y s with
  | ok a t =>
      rw [hrun] at h
      cases h
  | error fault t =>
      rw [hrun] at h
      cases fault with
      | err error => exact ⟨error, rfl⟩
      | panic => cases h

/-- Calls that do the same from a state leave the same state behind. -/
theorem after_congr {y' : Call ε σ α} (h : y s = y' s) : y.after s = y'.after s := by
  unfold Call.after
  rw [h]

/-- Calls that do the same from two states leave the same state behind. -/
theorem after_eq_after {y' : Call ε σ α} (h : y s = y' s') : y.after s = y'.after s' := by
  unfold Call.after
  rw [h]

theorem focus_of_ok (h : x (read s) = .ok a t) : x.focus read write s = .ok a (write t s) := by
  unfold Call.focus
  rw [h]

theorem focus_eq_ok :
    x.focus read write s = .ok a s' ↔ ∃ t, x (read s) = .ok a t ∧ s' = write t s := by
  unfold Call.focus
  cases x (read s) with
  | ok b t =>
      constructor
      · intro h
        cases h
        exact ⟨t, rfl, rfl⟩
      · intro h
        obtain ⟨_, h, rfl⟩ := h
        cases h
        rfl
  | error f t =>
      constructor
      · intro h
        cases h
      · intro h
        obtain ⟨_, h, _⟩ := h
        cases h

theorem focus_eq_error :
    x.focus read write s = .error e s' ↔ ∃ t, x (read s) = .error e t ∧ s' = write t s := by
  unfold Call.focus
  cases x (read s) with
  | ok b t =>
      constructor
      · intro h
        cases h
      · intro h
        obtain ⟨_, h, _⟩ := h
        cases h
  | error f t =>
      constructor
      · intro h
        cases h
        exact ⟨t, rfl, rfl⟩
      · intro h
        obtain ⟨_, h, rfl⟩ := h
        cases h
        rfl

theorem after_focus : (x.focus read write).after s = write (x.after (read s)) s := by
  unfold Call.after Call.focus
  cases x (read s) <;> rfl

/-- The error conversion does not touch the state. -/
theorem after_map_err {ε' : Type} (f : ε → ε') : (y.mapErr f).after s = y.after s := by
  unfold Call.after Call.mapErr
  cases y s <;> rfl

section Lens

variable (hread : ∀ t s, read (write t s) = t) (hkeep : ∀ s, write (read s) s = s)
  (hwrite : ∀ t t' s, write t (write t' s) = write t s)

include hkeep in
theorem focus_pure (a : α) (s : σ) :
    (Call.focus read write (pure a : Call ε τ α)) s = .ok a s := by
  show EStateM.Result.ok a (write (read s) s) = _
  rw [hkeep]

include hread hwrite in
/-- A sequence on a part of the state is a sequence of calls on that part. -/
theorem focus_bind {β : Type} (f : α → Call ε τ β) (s : σ) :
    Call.focus read write (x >>= f) s
      = (Call.focus read write x >>= fun a => Call.focus read write (f a)) s := by
  rw [bind_apply]
  unfold Call.focus
  rw [bind_apply]
  cases x (read s) with
  | ok a t =>
      simp only [hread]
      cases f a t with
      | ok b t' => exact congrArg (EStateM.Result.ok b) (hwrite t' t s).symm
      | error e t' => exact congrArg (EStateM.Result.error e) (hwrite t' t s).symm
  | error e t => rfl

include hread hkeep hwrite in
/-- A loop on a part of the state is a loop of calls on that part. -/
theorem focus_forM {β : Type} (f : β → Call ε τ PUnit) (xs : List β) (s : σ) :
    Call.focus read write (xs.forM f) s = xs.forM (fun x => Call.focus read write (f x)) s := by
  induction xs generalizing s with
  | nil => exact focus_pure hkeep _ s
  | cons x xs ih =>
      rw [List.forM, List.forM, focus_bind hread hwrite, bind_apply, bind_apply]
      cases Call.focus read write (f x) s with
      | ok u t => exact ih t
      | error e t => rfl

end Lens

/-! ## Sequences -/

theorem after_bind {β : Type} (f : α → Call ε σ β) (s : σ) :
    (y >>= f).after s = match y s with
      | .ok a t => (f a).after t
      | .error _ t => t := by
  unfold Call.after
  rw [bind_apply]
  cases y s <;> rfl

/-- A sequence fails in its first call, or in the rest. -/
theorem bind_eq_error {β : Type} {f : α → Call ε σ β} :
    (y >>= f) s = .error e s' ↔
      y s = .error e s' ∨ ∃ a t, y s = .ok a t ∧ f a t = .error e s' := by
  rw [bind_apply]
  cases y s with
  | ok a t =>
      constructor
      · intro h
        exact .inr ⟨a, t, rfl, h⟩
      · intro h
        rcases h with h | ⟨_, _, hok, h⟩
        · cases h
        · cases hok
          exact h
  | error f t =>
      constructor
      · intro h
        cases h
        exact .inl rfl
      · intro h
        rcases h with h | ⟨_, _, hok, _⟩
        · cases h
          rfl
        · cases hok

theorem call_bind_eq_ok {β : Type} {f : α → Call ε σ β} {b : β} :
    (y >>= f) s = .ok b s' ↔ ∃ a t, y s = .ok a t ∧ f a t = .ok b s' := by
  rw [bind_apply]
  cases y s with
  | ok a t =>
      constructor
      · intro h
        exact ⟨a, t, rfl, h⟩
      · intro h
        obtain ⟨_, _, hok, h⟩ := h
        cases hok
        exact h
  | error f t =>
      constructor
      · intro h
        cases h
      · intro h
        obtain ⟨_, _, hok, _⟩ := h
        cases hok

/-- A check does not fire in a call that succeeds. -/
theorem call_check_eq_ok {c : Prop} [Decidable c] {error : ε} {next : Unit → Call ε σ α} :
    (if c then Rust.fail error >>= next else next ()) s = .ok a s' ↔ ¬ c
      ∧ next () s = .ok a s' := by
  by_cases hc : c
  · rw [if_pos hc]
    refine iff_of_false (fun h => ?_) fun h => h.1 hc
    cases h
  · rw [if_neg hc]
    exact ⟨fun h => ⟨hc, h⟩, fun h => h.2⟩

theorem call_map_err_eq_ok {ε' : Type} {f : ε → ε'} :
    y.mapErr f s = .ok a s' ↔ y s = .ok a s' := by
  unfold Call.mapErr
  cases y s with
  | ok b t =>
      constructor
      · intro h
        cases h
        rfl
      · intro h
        cases h
        rfl
  | error e t => exact ⟨fun h => (nomatch h), fun h => nomatch h⟩

theorem run_on_eq_ok : y.runOn s = .ok (a, s') ↔ y s = .ok a s' := by
  unfold Call.runOn
  cases y s with
  | ok b t =>
      constructor
      · intro h
        cases h
        rfl
      · intro h
        cases h
        rfl
  | error e t => exact ⟨fun h => (nomatch h), fun h => nomatch h⟩

theorem eval_on_eq_ok : y.evalOn s = .ok a ↔ ∃ s', y s = .ok a s' := by
  unfold Call.evalOn
  cases y s with
  | ok b t =>
      constructor
      · intro h
        cases h
        exact ⟨t, rfl⟩
      · intro h
        obtain ⟨_, h⟩ := h
        cases h
        rfl
  | error e t => exact ⟨fun h => (nomatch h), fun ⟨_, h⟩ => nomatch h⟩

/-- A loop that collects results, none of which is an error. -/
theorem mapM_eq_ok_map {β : Type} {xs : List α} {f : α → Outcome ε β} {g : α → β}
    (h : ∀ x ∈ xs, f x = .ok (g x)) : xs.mapM f = .ok (xs.map g) := by
  induction xs with
  | nil => rfl
  | cons x xs ih =>
      rw [List.mapM_cons, h x List.mem_cons_self, ok_bind,
        ih fun y hy => h y (List.mem_cons_of_mem _ hy)]
      rfl

/-- A loop whose iterations do not fail. -/
theorem forM_eq_ok_foldl {f : α → Call ε σ PUnit} {g : σ → α → σ}
    (hf : ∀ x s, f x s = .ok ⟨⟩ (g s x)) (xs : List α) (s : σ) :
    xs.forM f s = .ok ⟨⟩ (xs.foldl g s) := by
  induction xs generalizing s with
  | nil => rfl
  | cons x xs ih =>
      rw [List.forM, bind_apply, hf]
      exact ih (g s x)

/-- What a call leaves behind and the rest keeps, also where it fails. -/
theorem bind_keeps {β : Type} {p : σ → Prop} {f : α → Call ε σ β} (hy : p (y.after s))
    (hf : ∀ a t, p t → p ((f a).after t)) : p ((y >>= f).after s) := by
  rw [after_bind]
  unfold Call.after at hy
  cases hrun : y s with
  | ok a t =>
      rw [hrun] at hy
      exact hf a t hy
  | error e t =>
      rw [hrun] at hy
      exact hy

/-- What every iteration keeps, also where it fails, a loop keeps. -/
theorem forM_keeps {p : σ → Prop} {f : α → Call ε σ PUnit} {xs : List α}
    (hf : ∀ x ∈ xs, ∀ s, p s → p ((f x).after s)) (hs : p s) : p ((xs.forM f).after s) := by
  induction xs generalizing s with
  | nil => exact hs
  | cons x xs ih =>
      refine bind_keeps (hf x List.mem_cons_self s hs) fun _ t ht => ?_
      exact ih (fun y hy => hf y (List.mem_cons_of_mem _ hy)) ht

end Rust
