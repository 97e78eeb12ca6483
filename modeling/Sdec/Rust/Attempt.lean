import Sdec.Rust.Ensures
import Sdec.Rust.Focus

/-!
# Calls whose errors are ignored

`if let Ok(x) = call` and `let _ = call` go on when the call returns an `Err`, but not when it
panics.
-/

namespace Rust

variable {ε ε' σ α : Type}

/-- `call.ok()`. -/
def Outcome.attempt : Outcome ε α → Outcome ε' (Option α)
  | .ok a => .ok (some a)
  | .error (.err _) => .ok none
  | .error .panic => .error .panic

/-- `call.ok()` on a call with mutable state, which the call may have changed before it fails. -/
def Call.attempt (x : Call ε σ α) : Call ε' σ (Option α) := fun s =>
  match x s with
  | .ok a s => .ok (some a) s
  | .error (.err _) s => .ok none s
  | .error .panic s => .error .panic s

theorem ne_panic_of_ensures {x : Outcome ε α} {p : α → Prop}
    (h : Ensures x p (PanicsOnlyIf False)) : x ≠ .error .panic := fun hpanic =>
  h.of_error hpanic rfl

/-- A call that cannot panic either succeeds or fails, and the program goes on. -/
theorem attempt_cases {x : Outcome ε α} (h : x ≠ .error .panic) :
    (∃ a, x = .ok a ∧ x.attempt = (.ok (some a) : Outcome ε' (Option α))) ∨
      ((∀ a, x ≠ .ok a) ∧ x.attempt = (.ok none : Outcome ε' (Option α))) := by
  cases x with
  | ok a => exact .inl ⟨a, rfl, rfl⟩
  | error e =>
      cases e with
      | err error => exact .inr ⟨nofun, rfl⟩
      | panic => exact absurd rfl h

theorem eval_on_of_run_on {x : Call ε σ α} {s s' : σ} {a : α} (h : x.runOn s = .ok (a, s')) :
    x.evalOn s = .ok a := eval_on_eq_ok.mpr ⟨s', run_on_eq_ok.mp h⟩

end Rust
