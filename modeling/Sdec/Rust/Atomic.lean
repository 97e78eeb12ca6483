import Sdec.Rust.Outcome

/-!
# Calls that leave no trace when they fail

`AtomicAt s x` says that where the call `x` returns an `Err` on the state `s`, the caller still sees
`s`. A call that checks first and then does what cannot fail is of this kind, and the rules follow
that shape: `AtomicAt.check` and `AtomicAt.after` for the checks, `AtomicAt.of_steady` for the rest.
-/

namespace Rust

variable {ε σ α β : Type} {s : σ}

/-- Where the call returns an `Err`, the state is as before. -/
def AtomicAt (s : σ) (x : Call ε σ α) : Prop := ∀ e s', x s = .error (.err e) s' → s' = s

/-- The call does not return an `Err`. -/
def SteadyAt (s : σ) (x : Call ε σ α) : Prop := ∀ e s', x s ≠ .error (.err e) s'

/-- The call leaves the state as it is, whether it succeeds or returns an `Err`. -/
def ReadsOnlyAt (s : σ) (x : Call ε σ α) : Prop :=
  AtomicAt s x ∧ ∀ a s', x s = .ok a s' → s' = s

/-! ## Calls without an `Err` -/

theorem SteadyAt.pure (a : α) : SteadyAt s (pure a : Call ε σ α) := by
  intro e s' h
  cases h

theorem SteadyAt.bind {x : Call ε σ α} {f : α → Call ε σ β} (h : SteadyAt s x)
    (hf : ∀ a s', x s = .ok a s' → SteadyAt s' (f a)) : SteadyAt s (x >>= f) := by
  intro e s' hrun
  rw [bind_apply] at hrun
  cases hx : x s with
  | ok a t =>
      rw [hx] at hrun
      exact hf a t hx e s' hrun
  | error fault t =>
      rw [hx] at hrun
      cases hrun
      exact h e s' hx

/-- Inspecting the state. -/
theorem SteadyAt.get {f : σ → Call ε σ β} (h : SteadyAt s (f s)) : SteadyAt s (get >>= f) := h

/-- A check that passes. -/
theorem SteadyAt.check {c : Prop} [Decidable c] {next : Unit → Call ε σ α} {error : ε} (hc : ¬ c)
    (h : SteadyAt s (next ())) : SteadyAt s (if c then fail error >>= next else next ()) := by
  rwa [if_neg hc]

/-! ### Slices and sizes -/

/-- A `usize` sum may panic, but returns no `Err`. -/
theorem steady_usize_add (s : σ) (a b : Nat) :
    SteadyAt s (usizeAdd a b : Call ε σ Nat) := by
  intro e s' h
  unfold usizeAdd at h
  split at h <;> cases h

theorem steady_index (s : σ) (xs : List α) (i : Nat) :
    SteadyAt s (index xs i : Call ε σ α) := by
  intro e s' h
  unfold index at h
  cases hx : xs[i]? with
  | none =>
      rw [hx] at h
      cases h
  | some x =>
      rw [hx] at h
      cases h

theorem steady_store (s : σ) (xs : List α) (i : Nat) (x : α) :
    SteadyAt s (store xs i x : Call ε σ (List α)) := by
  intro e s' h
  unfold store at h
  split at h <;> cases h

theorem steady_slice (s : σ) (xs : List α) (start stop : Nat) :
    SteadyAt s (slice xs start stop : Call ε σ (List α)) := by
  intro e s' h
  unfold slice at h
  split at h <;> cases h

theorem steady_copy_from_slice (s : σ) (xs : List α) (start : Nat) (ys : List α) :
    SteadyAt s (copyFromSlice xs start ys : Call ε σ (List α)) := by
  intro e s' h
  unfold copyFromSlice at h
  split at h <;> cases h

theorem steady_get (s : σ) : SteadyAt s (get : Call ε σ σ) := by
  intro e s' h
  cases h

theorem steady_set {σ ε : Type} (s t : σ) : SteadyAt s (set t : Call ε σ PUnit) := by
  intro e s' h
  cases h

/-! ## Calls that fail before they write -/

theorem AtomicAt.of_steady {x : Call ε σ α} (h : SteadyAt s x) : AtomicAt s x :=
  fun e s' hrun => absurd hrun (h e s')

theorem AtomicAt.fail (error : ε) : AtomicAt s (fail error : Call ε σ α) := by
  intro e s' h
  cases h
  rfl

theorem AtomicAt.pure (a : α) : AtomicAt s (pure a : Call ε σ α) :=
  AtomicAt.of_steady (SteadyAt.pure a)

theorem AtomicAt.ite {c : Prop} [Decidable c] {x y : Call ε σ α} (hx : c → AtomicAt s x)
    (hy : ¬ c → AtomicAt s y) : AtomicAt s (if c then x else y) := by
  by_cases hc : c
  · rw [if_pos hc]
    exact hx hc
  · rw [if_neg hc]
    exact hy hc

/-- A check: `if c { return Err(..) }`. -/
theorem AtomicAt.check {c : Prop} [Decidable c] {next : Unit → Call ε σ α} {error : ε}
    (h : ¬ c → AtomicAt s (next ())) :
    AtomicAt s (if c then Rust.fail error >>= next else next ()) := by
  refine AtomicAt.ite (fun _ => ?_) h
  intro e s' hrun
  cases hrun
  rfl

/-- A call that only reads, before one that may write. -/
theorem AtomicAt.after {x : Call ε σ α} {f : α → Call ε σ β} (h : ReadsOnlyAt s x)
    (hf : ∀ a, x s = .ok a s → AtomicAt s (f a)) : AtomicAt s (x >>= f) := by
  intro e s' hrun
  rw [bind_apply] at hrun
  cases hx : x s with
  | ok a t =>
      rw [hx] at hrun
      obtain rfl := h.2 a t hx
      exact hf a hx e s' hrun
  | error fault t =>
      rw [hx] at hrun
      cases hrun
      exact h.1 e s' hx

/-- A call before a step that cannot return an `Err`. -/
theorem AtomicAt.bind_steady {x : Call ε σ α} {f : α → Call ε σ β} (h : AtomicAt s x)
    (hf : ∀ a s', x s = .ok a s' → SteadyAt s' (f a)) : AtomicAt s (x >>= f) := by
  intro e s' hrun
  rw [bind_apply] at hrun
  cases hx : x s with
  | ok a t =>
      rw [hx] at hrun
      exact absurd hrun (hf a t hx e s')
  | error fault t =>
      rw [hx] at hrun
      cases hrun
      exact h e s' hx

/-- A read whose value goes into a pure step. -/
theorem AtomicAt.bind_pure {x : Call ε σ α} {f : α → β} (h : AtomicAt s x) :
    AtomicAt s (x >>= fun a => Pure.pure (f a)) :=
  h.bind_steady fun _ _ _ => SteadyAt.pure _

/-- Inspecting the state. -/
theorem AtomicAt.get {f : σ → Call ε σ β} (h : AtomicAt s (f s)) : AtomicAt s (get >>= f) := h

/-! ## Checks as calls of their own -/

theorem ReadsOnlyAt.pure (a : α) : ReadsOnlyAt s (pure a : Call ε σ α) := by
  refine ⟨AtomicAt.pure a, fun b s' h => ?_⟩
  cases h
  rfl

theorem ReadsOnlyAt.check {c : Prop} [Decidable c] {error : ε} :
    ReadsOnlyAt s (if c then Rust.fail error else Pure.pure () : Call ε σ Unit) := by
  by_cases hc : c
  · rw [if_pos hc]
    refine ⟨AtomicAt.fail error, fun a s' h => ?_⟩
    cases h
  · rw [if_neg hc]
    exact ReadsOnlyAt.pure ()

/-- A pure computation. -/
theorem ReadsOnlyAt.lift (x : Outcome ε α) : ReadsOnlyAt s (liftOutcome x : Call ε σ α) := by
  cases x with
  | ok a => exact ReadsOnlyAt.pure a
  | error fault =>
      refine ⟨fun e s' h => ?_, fun a s' h => ?_⟩
      · cases h
        rfl
      · cases h

end Rust
