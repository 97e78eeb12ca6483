import Sdec.Rust.Outcome
import Mathlib.Data.List.Forall2

/-!
# One call after another

`x.Follows R y` compares two calls: where `x` returns a value, so does `y`, from the same state and
with the same state left, and the two values are related. Where `x` fails nothing is said, so a pair
of calls that follow each other fail together, with whatever errors. Sequences, checks and loops
over related lists each have a rule, so that the proof about a pair of functions follows their
common text.
-/

namespace Rust

variable {ε ε' σ α β γ δ : Type}

/-- Where the first call returns a value, so does the second, and the values are related. -/
def Outcome.Follows (R : α → β → Prop) (x : Outcome ε α) (y : Outcome ε β) : Prop :=
  ∀ a, x = .ok a → ∃ b, y = .ok b ∧ R a b

/-- The same of calls with mutable state, from one state, which they leave the same. -/
def Call.Follows (R : α → β → Prop) (x : Call ε σ α) (y : Call ε σ β) : Prop :=
  ∀ s a s', x s = .ok a s' → ∃ b, y s = .ok b s' ∧ R a b

variable {R : α → β → Prop} {S : γ → δ → Prop}

namespace Outcome.Follows

/-- A call follows itself. -/
theorem refl (x : Outcome ε α) : Outcome.Follows Eq x x := fun a h => ⟨a, h, rfl⟩

theorem pure {a : α} {b : β} (h : R a b) :
    Outcome.Follows R (Pure.pure a : Outcome ε α) (Pure.pure b) := by
  intro a' ha
  cases ha
  exact ⟨b, rfl, h⟩

theorem fail (error : ε) (y : Outcome ε β) : Outcome.Follows R (fail error : Outcome ε α) y :=
  fun _ h => (fail_eq_ok.mp h).elim

theorem bind {x : Outcome ε α} {y : Outcome ε β} {f : α → Outcome ε γ} {g : β → Outcome ε δ}
    (h : Outcome.Follows R x y) (hnext : ∀ a b, R a b → Outcome.Follows S (f a) (g b)) :
    Outcome.Follows S (x >>= f) (y >>= g) := by
  intro c hc
  obtain ⟨a, ha, hc⟩ := bind_eq_ok.mp hc
  obtain ⟨b, hb, hab⟩ := h a ha
  obtain ⟨d, hd, hcd⟩ := hnext a b hab c hc
  exact ⟨d, bind_eq_ok.mpr ⟨b, hb, hd⟩, hcd⟩

/-- The values are those that the calls return. -/
theorem and_eq {x : Outcome ε α} {y : Outcome ε β} (h : Outcome.Follows R x y) :
    Outcome.Follows (fun a b => R a b ∧ x = .ok a ∧ y = .ok b) x y := by
  intro a ha
  obtain ⟨b, hb, hab⟩ := h a ha
  exact ⟨b, hb, hab, ha, hb⟩

/-- A common first call. -/
theorem bind_same (x : Outcome ε α) {f : α → Outcome ε γ} {g : α → Outcome ε δ}
    (hnext : ∀ a, Outcome.Follows S (f a) (g a)) : Outcome.Follows S (x >>= f) (x >>= g) :=
  (refl x).bind fun a b hab => by
    subst hab
    exact hnext a

/-- A common check. -/
theorem check {c : Prop} [Decidable c] {error : ε} {f : Unit → Outcome ε α} {g : Unit → Outcome ε β}
    (h : ¬ c → Outcome.Follows R (f ()) (g ())) :
    Outcome.Follows R (if c then Rust.fail error >>= f else f ())
      (if c then Rust.fail error >>= g else g ()) := by
  by_cases hc : c
  · rw [if_pos hc, if_pos hc]
    exact fail error _
  · rw [if_neg hc, if_neg hc]
    exact h hc

theorem foldlM {f : γ → α → Outcome ε γ} {g : δ → β → Outcome ε δ} {xs : List α} {ys : List β}
    (hlists : List.Forall₂ R xs ys)
    (hstep : ∀ s t x y, S s t → R x y → Outcome.Follows S (f s x) (g t y)) {s : γ} {t : δ}
    (h : S s t) : Outcome.Follows S (xs.foldlM f s) (ys.foldlM g t) := by
  induction hlists generalizing s t with
  | nil => exact pure h
  | cons hxy _ ih =>
      rw [List.foldlM_cons, List.foldlM_cons]
      exact (hstep s t _ _ h hxy).bind fun _ _ hst => ih hst

/-- A loop over one list. -/
theorem foldlM_same {f : γ → α → Outcome ε γ} {g : δ → α → Outcome ε δ} {xs : List α}
    (hstep : ∀ x ∈ xs, ∀ s t, S s t → Outcome.Follows S (f s x) (g t x)) {s : γ} {t : δ}
    (h : S s t) : Outcome.Follows S (xs.foldlM f s) (xs.foldlM g t) := by
  refine foldlM (R := fun x y => x = y ∧ x ∈ xs) (List.forall₂_same.mpr fun x hx => ⟨rfl, hx⟩)
    (fun s t x y hst hxy => ?_) h
  obtain ⟨rfl, hx⟩ := hxy
  exact hstep x hx s t hst

end Outcome.Follows

namespace Call.Follows

/-- A call follows itself. -/
theorem refl (x : Call ε σ α) : Call.Follows Eq x x := fun _ a _ h => ⟨a, h, rfl⟩

theorem pure {a : α} {b : β} (h : R a b) :
    Call.Follows R (Pure.pure a : Call ε σ α) (Pure.pure b) := by
  intro s a' s' ha
  cases ha
  exact ⟨b, rfl, h⟩

theorem imp {R' : α → β → Prop} {x : Call ε σ α} {y : Call ε σ β} (h : Call.Follows R x y)
    (himp : ∀ a b, R a b → R' a b) : Call.Follows R' x y := by
  intro s a s' ha
  obtain ⟨b, hb, hab⟩ := h s a s' ha
  exact ⟨b, hb, himp a b hab⟩

theorem bind {x : Call ε σ α} {y : Call ε σ β} {f : α → Call ε σ γ} {g : β → Call ε σ δ}
    (h : Call.Follows R x y) (hnext : ∀ a b, R a b → Call.Follows S (f a) (g b)) :
    Call.Follows S (x >>= f) (y >>= g) := by
  intro s c s' hc
  rw [bind_apply] at hc
  cases hx : x s with
  | error e t =>
      rw [hx] at hc
      cases hc
  | ok a t =>
      rw [hx] at hc
      obtain ⟨b, hb, hab⟩ := h s a t hx
      obtain ⟨d, hd, hcd⟩ := hnext a b hab t c s' hc
      refine ⟨d, ?_, hcd⟩
      rw [bind_apply, hb]
      exact hd

/-- The first value is one that the first call returns. -/
theorem and_ok {x : Call ε σ α} {y : Call ε σ β} (h : Call.Follows R x y) :
    Call.Follows (fun a b => R a b ∧ ∃ s s', x s = .ok a s') x y := by
  intro s a s' ha
  obtain ⟨b, hb, hab⟩ := h s a s' ha
  exact ⟨b, hb, hab, s, s', ha⟩

/-- A common first call. -/
theorem bind_same (x : Call ε σ α) {f : α → Call ε σ γ} {g : α → Call ε σ δ}
    (hnext : ∀ a, Call.Follows S (f a) (g a)) : Call.Follows S (x >>= f) (x >>= g) :=
  (refl x).bind fun a b hab => by
    subst hab
    exact hnext a

/-- A common check. -/
theorem check {c : Prop} [Decidable c] {error : ε} {f : Unit → Call ε σ α} {g : Unit → Call ε σ β}
    (h : ¬ c → Call.Follows R (f ()) (g ())) :
    Call.Follows R (if c then Rust.fail error >>= f else f ())
      (if c then Rust.fail error >>= g else g ()) := by
  by_cases hc : c
  · rw [if_pos hc]
    intro s a s' ha
    cases ha
  · rw [if_neg hc, if_neg hc]
    exact h hc

/-- Calls without mutable state. -/
theorem lift {x : Outcome ε α} {y : Outcome ε β} (h : Outcome.Follows R x y) :
    Call.Follows R (liftM x : Call ε σ α) (liftM y) := by
  intro s a s' ha
  cases x with
  | error e => cases ha
  | ok a =>
      cases ha
      obtain ⟨b, rfl, hab⟩ := h a rfl
      exact ⟨b, rfl, hab⟩

theorem foldlM {f : γ → α → Call ε σ γ} {g : δ → β → Call ε σ δ} {xs : List α} {ys : List β}
    (hlists : List.Forall₂ R xs ys)
    (hstep : ∀ s t x y, S s t → R x y → Call.Follows S (f s x) (g t y)) {s : γ} {t : δ}
    (h : S s t) : Call.Follows S (xs.foldlM f s) (ys.foldlM g t) := by
  induction hlists generalizing s t with
  | nil => exact pure h
  | cons hxy _ ih =>
      rw [List.foldlM_cons, List.foldlM_cons]
      exact (hstep s t _ _ h hxy).bind fun _ _ hst => ih hst

/-- A loop over one list. -/
theorem foldlM_same {f : γ → α → Call ε σ γ} {g : δ → α → Call ε σ δ} {xs : List α}
    (hstep : ∀ x ∈ xs, ∀ s t, S s t → Call.Follows S (f s x) (g t x)) {s : γ} {t : δ}
    (h : S s t) : Call.Follows S (xs.foldlM f s) (xs.foldlM g t) := by
  refine foldlM (R := fun x y => x = y ∧ x ∈ xs) (List.forall₂_same.mpr fun x hx => ⟨rfl, hx⟩)
    (fun s t x y hst hxy => ?_) h
  obtain ⟨rfl, hx⟩ := hxy
  exact hstep x hx s t hst

theorem forM {f : α → Call ε σ PUnit} {g : β → Call ε σ PUnit} {xs : List α} {ys : List β}
    (hlists : List.Forall₂ R xs ys) (hstep : ∀ x y, R x y → Call.Follows Eq (f x) (g y)) :
    Call.Follows Eq (xs.forM f) (ys.forM g) := by
  induction hlists with
  | nil => exact refl _
  | cons hxy _ ih => exact (hstep _ _ hxy).bind fun _ _ _ => ih

/-- On a local variable that starts with the same contents. -/
theorem runOn {x : Call ε σ α} {y : Call ε σ β} (h : Call.Follows R x y) (s : σ) :
    Outcome.Follows (fun p q => R p.1 q.1 ∧ p.2 = q.2) (x.runOn s) (y.runOn s) := by
  intro p hp
  unfold Call.runOn at hp ⊢
  cases hx : x s with
  | error e t =>
      rw [hx] at hp
      cases hp
  | ok a t =>
      rw [hx] at hp
      cases hp
      obtain ⟨b, hb, hab⟩ := h s a t hx
      rw [hb]
      exact ⟨(b, t), rfl, hab, rfl⟩

/-- The same, when nobody reads what is left in the variable. -/
theorem evalOn {x : Call ε σ α} {y : Call ε σ β} (h : Call.Follows R x y) (s : σ) :
    Outcome.Follows R (x.evalOn s) (y.evalOn s) := by
  intro a ha
  unfold Call.evalOn at ha ⊢
  cases hx : x s with
  | error e t =>
      rw [hx] at ha
      cases ha
  | ok a' t =>
      rw [hx] at ha
      cases ha
      obtain ⟨b, hb, hab⟩ := h s a t hx
      rw [hb]
      exact ⟨b, rfl, hab⟩

end Call.Follows

/-- Calls on the same tail of a slice. -/
theorem Outcome.Follows.with_tail {xs : List α} {start : Nat}
    {f : List α → Outcome ε (γ × List α)} {g : List α → Outcome ε (δ × List α)}
    (h : ∀ tail, Outcome.Follows (fun p q => S p.1 q.1 ∧ p.2 = q.2) (f tail) (g tail)) :
    Outcome.Follows (fun p q => S p.1 q.1 ∧ p.2 = q.2) (withTail xs start f)
      (withTail xs start g) := by
  unfold withTail
  by_cases hstart : start ≤ xs.length
  · rw [if_pos hstart, if_pos hstart]
    refine (h _).bind fun p q hpq => pure ⟨hpq.1, ?_⟩
    rw [hpq.2]
  · rw [if_neg hstart]
    exact fun a ha => (fault_eq_ok.mp ha).elim

end Rust
