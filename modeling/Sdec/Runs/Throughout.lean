import Mathlib.Tactic.Common

/-!
# Runs of a state machine

A run starts in a state and takes one step after another, each with an input. `Throughout step p`
says that `p` holds of every state and input of a run, and an invariant that every such step keeps
holds at the end of the run.
-/

namespace Runs

variable {σ α : Type} {step : σ → α → σ} {p q : σ → α → Prop} {s : σ} {x : α} {xs ys : List α}

/-- `p` holds of each input of a run and the state that it is handled in. -/
def Throughout (step : σ → α → σ) (p : σ → α → Prop) (s : σ) : List α → Prop
  | [] => True
  | x :: xs => p s x ∧ Throughout step p (step s x) xs

@[simp] theorem throughout_nil : Throughout step p s [] := trivial

@[simp] theorem throughout_cons :
    Throughout step p s (x :: xs) ↔ p s x ∧ Throughout step p (step s x) xs := Iff.rfl

/-- Two runs, one after the other. -/
theorem throughout_append :
    Throughout step p s (xs ++ ys)
      ↔ Throughout step p s xs ∧ Throughout step p (xs.foldl step s) ys := by
  induction xs generalizing s with
  | nil => simp
  | cons x xs ih => rw [List.cons_append, throughout_cons, throughout_cons, ih, and_assoc,
      List.foldl_cons]

/-- What holds of all inputs, holds throughout a run. -/
theorem throughout_of_forall {r : α → Prop} (h : ∀ x ∈ xs, r x) :
    Throughout step (fun _ x => r x) s xs := by
  induction xs generalizing s with
  | nil => trivial
  | cons x xs ih =>
      exact ⟨h x List.mem_cons_self, ih fun y hy => h y (List.mem_cons_of_mem _ hy)⟩

theorem Throughout.and (h : Throughout step p s xs) (h' : Throughout step q s xs) :
    Throughout step (fun s x => p s x ∧ q s x) s xs := by
  induction xs generalizing s with
  | nil => trivial
  | cons x xs ih => exact ⟨⟨h.1, h'.1⟩, ih h.2 h'.2⟩

/-- What each step keeps, a run keeps. -/
theorem Throughout.invariant {inv : σ → Prop} (h : Throughout step p s xs) (hs : inv s)
    (hstep : ∀ s x, p s x → inv s → inv (step s x)) : inv (xs.foldl step s) := by
  induction xs generalizing s with
  | nil => exact hs
  | cons x xs ih => exact ih h.2 (hstep s x h.1 hs)

/-- A property of the steps follows from another one where an invariant holds. -/
theorem Throughout.imp {inv : σ → Prop} (h : Throughout step p s xs) (hs : inv s)
    (hstep : ∀ s x, p s x → inv s → inv (step s x)) (hq : ∀ s x, p s x → inv s → q s x) :
    Throughout step q s xs := by
  induction xs generalizing s with
  | nil => trivial
  | cons x xs ih => exact ⟨hq s x h.1 hs, ih h.2 (hstep s x h.1 hs)⟩

/-- Two properties of the steps that are the same where an invariant holds. -/
theorem Throughout.iff {r : σ → α → Prop} {inv : σ → Prop} (h : Throughout step p s xs) (hs : inv s)
    (hstep : ∀ s x, p s x → inv s → inv (step s x))
    (hiff : ∀ s x, p s x → inv s → (q s x ↔ r s x)) :
    Throughout step q s xs ↔ Throughout step r s xs := by
  induction xs generalizing s with
  | nil => exact Iff.rfl
  | cons x xs ih =>
      exact and_congr (hiff s x h.1 hs) (ih h.2 (hstep s x h.1 hs))

/-- Two properties of the steps that are the same where an invariant holds, which the first one
keeps. -/
theorem throughout_iff {r : σ → α → Prop} (inv : σ → Prop) (hs : inv s)
    (hiff : ∀ s x, inv s → (q s x ↔ r s x)) (hstep : ∀ s x, inv s → q s x → inv (step s x)) :
    Throughout step q s xs ↔ Throughout step r s xs := by
  induction xs generalizing s with
  | nil => exact Iff.rfl
  | cons x xs ih =>
      rw [throughout_cons, throughout_cons, ← hiff s x hs]
      exact and_congr_right fun hq => ih (hstep s x hs hq)

end Runs
