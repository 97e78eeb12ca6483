import Sdec.Rust.Outcome

/-!
# What a call ensures

`Ensures x post exit` says of a call that a value it returns satisfies `post`, and that a fault it
ends with satisfies `exit`. Calls that run one after another, branches and loops each have a rule,
so that the proof about a function follows its text.
-/

namespace Rust

variable {ε ε' σ α β : Type} {post q : α → Prop} {exit : Fault ε → Prop}

/-- A value that the call returns satisfies `post`, and a fault that it ends with satisfies
`exit`. -/
def Ensures (x : Outcome ε α) (post : α → Prop) (exit : Fault ε → Prop) : Prop :=
  match x with
  | .ok a => post a
  | .error e => exit e

/-- A call may end with any error, and panics only where `risk` holds. -/
def PanicsOnlyIf (risk : Prop) (e : Fault ε) : Prop := e = .panic → risk

theorem panics_only_if_err {risk : Prop} (error : ε) : PanicsOnlyIf risk (.err error) :=
  fun h => nomatch h

/-- A converted error is no more of a panic. -/
theorem PanicsOnlyIf.map {risk : Prop} {e : Fault ε} (f : ε → ε') (h : PanicsOnlyIf risk e) :
    PanicsOnlyIf risk (e.map f) := by
  cases e with
  | err error => exact panics_only_if_err (f error)
  | panic => exact fun _ => h rfl

theorem Ensures.pure {a : α} (h : post a) : Ensures (pure a : Outcome ε α) post exit := h

theorem Ensures.fail {error : ε} (h : exit (.err error)) :
    Ensures (fail error : Outcome ε α) post exit := h

theorem Ensures.mono {x : Outcome ε α} {exit' : Fault ε → Prop} (h : Ensures x q exit')
    (hpost : ∀ a, q a → post a) (hexit : ∀ e, exit' e → exit e) : Ensures x post exit := by
  cases x with
  | ok a => exact hpost a h
  | error e => exact hexit e h

/-- A weaker statement about the value. -/
theorem Ensures.imp {x : Outcome ε α} (h : Ensures x q exit) (hpost : ∀ a, q a → post a) :
    Ensures x post exit :=
  h.mono hpost fun _ he => he

/-- What is known of the value of a call that returns one. -/
theorem Ensures.of_ok {x : Outcome ε α} {a : α} (h : Ensures x post exit)
    (hx : x = .ok a) : post a := by
  rwa [hx] at h

/-- More about a value that the call returns. -/
theorem Ensures.and_of_ok {x : Outcome ε α} (h : Ensures x (fun _ => True) exit)
    (hok : ∀ a, x = .ok a → post a) : Ensures x post exit := by
  cases x with
  | ok a => exact hok a rfl
  | error e => exact h

/-- What is known of the fault of a call that ends with one. -/
theorem Ensures.of_error {x : Outcome ε α} {e : Fault ε} (h : Ensures x post exit)
    (hx : x = .error e) : exit e := by
  rwa [hx] at h

theorem Ensures.bind {x : Outcome ε α} {next : α → Outcome ε β} {post : β → Prop}
    (h : Ensures x q exit) (hnext : ∀ a, q a → Ensures (next a) post exit) :
    Ensures (x >>= next) post exit := by
  cases x with
  | ok a => exact hnext a h
  | error e => exact h

/-- A check: `if c { return Err(..) }`. -/
theorem Ensures.check {c : Prop} [Decidable c] {error : ε} {next : Unit → Outcome ε α}
    (herror : c → exit (.err error)) (h : ¬ c → Ensures (next ()) post exit) :
    Ensures (if c then Rust.fail error >>= next else next ()) post exit := by
  by_cases hc : c
  · rw [if_pos hc]
    exact herror hc
  · rw [if_neg hc]
    exact h hc

theorem Ensures.map_err {x : Outcome ε' α} {f : ε' → ε}
    (h : Ensures x post fun e => exit (e.map f)) : Ensures (x.mapErr f) post exit := by
  cases x with
  | ok a => exact h
  | error e => exact h

theorem Ensures.ite {c : Prop} [Decidable c] {x y : Outcome ε α} (hx : c → Ensures x post exit)
    (hy : ¬ c → Ensures y post exit) : Ensures (if c then x else y) post exit := by
  by_cases hc : c
  · rw [if_pos hc]
    exact hx hc
  · rw [if_neg hc]
    exact hy hc

/-- A loop without an accumulator. -/
theorem Ensures.forM {f : α → Outcome ε PUnit} {xs : List α}
    (h : ∀ x ∈ xs, Ensures (f x) (fun _ => True) exit) :
    Ensures (xs.forM f) (fun _ => True) exit := by
  induction xs with
  | nil => exact trivial
  | cons x xs ih =>
      rw [List.forM]
      exact (h x List.mem_cons_self).bind fun _ _ => ih fun y hy => h y (List.mem_cons_of_mem _ hy)

/-- A loop keeps what each of its iterations keeps. -/
theorem Ensures.foldlM {inv : σ → Prop} {f : σ → α → Outcome ε σ} {xs : List α} {s : σ} (hs : inv s)
    (hstep : ∀ x ∈ xs, ∀ s, inv s → Ensures (f s x) inv exit) :
    Ensures (xs.foldlM f s) inv exit := by
  induction xs generalizing s with
  | nil => exact hs
  | cons x xs ih =>
      rw [List.foldlM_cons]
      exact (hstep x List.mem_cons_self s hs).bind fun s' hs' =>
        ih hs' fun y hy => hstep y (List.mem_cons_of_mem _ hy)

/-! ## Calls with mutable state -/

/-- The same of a call with mutable state, from each state with an invariant, which it keeps where
it returns a value. -/
def Keeps (inv : σ → Prop) (x : Call ε σ α) (post : α → Prop) (exit : Fault ε → Prop) : Prop :=
  ∀ s, inv s → match x s with
    | .ok a s' => post a ∧ inv s'
    | .error e _ => exit e

/-- From `s`, the call ends with a value and a state that satisfy `post`, or with a fault that
satisfies `exit`. -/
def EndsIn (s : σ) (x : Call ε σ α) (post : α → σ → Prop) (exit : Fault ε → Prop) : Prop :=
  match x s with
  | .ok a s' => post a s'
  | .error e _ => exit e

theorem EndsIn.of_ok {s s' : σ} {x : Call ε σ α} {a : α} {post : α → σ → Prop} (hx : x s = .ok a s')
    (h : post a s') : EndsIn s x post exit := by
  rw [EndsIn, hx]
  exact h

/-- A first call that returns, and has changed nothing. -/
theorem EndsIn.bind_same {s : σ} {x : Call ε σ α} {next : α → Call ε σ β} {a : α}
    {post : β → σ → Prop} (hx : x s = .ok a s) (h : EndsIn s (next a) post exit) :
    EndsIn s (x >>= next) post exit := by
  rw [EndsIn, bind_apply, hx]
  exact h

/-- A first call that fails. -/
theorem EndsIn.bind_error {s s' : σ} {x : Call ε σ α} {next : α → Call ε σ β} {e : Fault ε}
    {post : β → σ → Prop} (hx : x s = .error e s') (h : exit e) :
    EndsIn s (x >>= next) post exit := by
  rw [EndsIn, bind_apply, hx]
  exact h

section Keeps

variable {inv : σ → Prop}

theorem Keeps.of_ends_in {x : Call ε σ α}
    (h : ∀ s, inv s → EndsIn s x (fun a s' => post a ∧ inv s') exit) : Keeps inv x post exit := h

theorem Keeps.pure {a : α} (h : post a) : Keeps inv (pure a : Call ε σ α) post exit :=
  fun _ hs => ⟨h, hs⟩

theorem Keeps.fail {error : ε} (h : exit (.err error)) :
    Keeps inv (Rust.fail error : Call ε σ α) post exit := fun _ _ => h

theorem Keeps.imp {x : Call ε σ α} (h : Keeps inv x q exit) (hpost : ∀ a, q a → post a) :
    Keeps inv x post exit := by
  intro s hs
  have := h s hs
  cases hx : x s with
  | ok a s' =>
      rw [hx] at this
      exact ⟨hpost a this.1, this.2⟩
  | error e s' =>
      rw [hx] at this
      exact this

theorem Keeps.bind {x : Call ε σ α} {next : α → Call ε σ β} {post : β → Prop}
    (h : Keeps inv x q exit) (hnext : ∀ a, q a → Keeps inv (next a) post exit) :
    Keeps inv (x >>= next) post exit := by
  intro s hs
  have := h s hs
  rw [bind_apply]
  cases hx : x s with
  | ok a s' =>
      rw [hx] at this
      exact hnext a this.1 s' this.2
  | error e s' =>
      rw [hx] at this
      exact this

theorem Keeps.check {c : Prop} [Decidable c] {error : ε} {next : Unit → Call ε σ α}
    (herror : c → exit (.err error)) (h : ¬ c → Keeps inv (next ()) post exit) :
    Keeps inv (if c then Rust.fail error >>= next else next ()) post exit := by
  by_cases hc : c
  · rw [if_pos hc]
    exact fun _ _ => herror hc
  · rw [if_neg hc]
    exact h hc

theorem Keeps.ite {c : Prop} [Decidable c] {x y : Call ε σ α} (hx : c → Keeps inv x post exit)
    (hy : ¬ c → Keeps inv y post exit) : Keeps inv (if c then x else y) post exit := by
  by_cases hc : c
  · rw [if_pos hc]
    exact hx hc
  · rw [if_neg hc]
    exact hy hc

theorem Keeps.map_err {x : Call ε' σ α} {f : ε' → ε}
    (h : Keeps inv x post fun e => exit (e.map f)) : Keeps inv (x.mapErr f) post exit := by
  intro s hs
  have := h s hs
  rw [Call.mapErr]
  cases hx : x s with
  | ok a s' =>
      rw [hx] at this
      exact this
  | error e s' =>
      rw [hx] at this
      exact this

theorem Keeps.forM {f : α → Call ε σ PUnit} {xs : List α}
    (h : ∀ x ∈ xs, Keeps inv (f x) (fun _ => True) exit) :
    Keeps inv (xs.forM f) (fun _ => True) exit := by
  induction xs with
  | nil => exact Keeps.pure trivial
  | cons x xs ih =>
      rw [List.forM]
      exact (h x List.mem_cons_self).bind fun _ _ => ih fun y hy => h y (List.mem_cons_of_mem _ hy)

/-- A loop with an accumulator, which has an invariant of its own. -/
theorem Keeps.foldlM {acc : β → Prop} {f : β → α → Call ε σ β} {xs : List α} {b : β} (hb : acc b)
    (hstep : ∀ x ∈ xs, ∀ b, acc b → Keeps inv (f b x) acc exit) :
    Keeps inv (xs.foldlM f b) acc exit := by
  induction xs generalizing b with
  | nil => exact Keeps.pure hb
  | cons x xs ih =>
      rw [List.foldlM_cons]
      exact (hstep x List.mem_cons_self b hb).bind fun b' hb' =>
        ih hb' fun y hy => hstep y (List.mem_cons_of_mem _ hy)

/-- A call on a local variable. -/
theorem Keeps.run_on {x : Call ε σ α} {s : σ} (h : Keeps inv x post exit) (hs : inv s) :
    Ensures (x.runOn s) (fun r => post r.1 ∧ inv r.2) exit := by
  have := h s hs
  rw [Call.runOn]
  cases hx : x s with
  | ok a s' =>
      rw [hx] at this
      exact this
  | error e s' =>
      rw [hx] at this
      exact this

/-- A call on a local variable whose final contents nobody reads. -/
theorem Keeps.eval_on {x : Call ε σ α} {s : σ} (h : Keeps inv x post exit) (hs : inv s) :
    Ensures (x.evalOn s) post exit := by
  have := h s hs
  rw [Call.evalOn]
  cases hx : x s with
  | ok a s' =>
      rw [hx] at this
      exact this.1
  | error e s' =>
      rw [hx] at this
      exact this

/-- A call without mutable state, inside one that has some. -/
theorem Keeps.lift {x : Outcome ε α} (h : Ensures x post exit) :
    Keeps inv (liftM x : Call ε σ α) post exit := by
  intro s hs
  cases x with
  | ok a => exact ⟨h, hs⟩
  | error e => exact h

theorem Keeps.get {next : σ → Call ε σ α} (h : ∀ s, inv s → Keeps inv (next s) post exit) :
    Keeps inv (MonadState.get >>= next) post exit := by
  intro s hs
  rw [bind_apply]
  exact h s hs s hs

theorem Keeps.set {s : σ} (h : inv s) : Keeps inv (set s : Call ε σ Unit) (fun _ => True) exit :=
  fun _ _ => ⟨trivial, h⟩

/-- `xs[i]` in bounds. -/
theorem Keeps.index {xs : List α} {i : Nat} (h : i < xs.length) :
    Keeps inv (Rust.index xs i : Call ε σ α) (fun a => xs[i]? = some a) exit := by
  have hsome : xs[i]? = some xs[i] := List.getElem?_eq_getElem h
  rw [index_of_some hsome]
  exact Keeps.pure hsome

/-- `xs[i] = x` in bounds. -/
theorem Keeps.store {xs : List α} {i : Nat} {x : α} (h : i < xs.length) :
    Keeps inv (Rust.store xs i x : Call ε σ (List α)) (fun ys => ys.length = xs.length) exit := by
  rw [store_of_lt h]
  exact Keeps.pure List.length_set

end Keeps

/-! ## Slices -/

/-- `copy_within` in bounds keeps the length of the slice. -/
theorem copy_within_of_le {m : Type → Type} [Monad m] [LawfulMonad m] [MonadFault ε m] {xs : List α}
    {start stop dest : Nat} (h : start ≤ stop) (hs : stop ≤ xs.length)
    (hd : dest + (stop - start) ≤ xs.length) :
    ∃ ys, copyWithin (m := m) xs start stop dest = pure ys ∧ ys.length = xs.length := by
  have hmoved : ((xs.take stop).drop start).length = stop - start := by
    rw [List.length_drop, List.length_take]
    omega
  refine ⟨_, by rw [copyWithin, slice_of_le h hs, pure_bind, copy_from_slice_of_le (by omega)], ?_⟩
  rw [List.length_append, List.length_append, hmoved, List.length_take, List.length_drop]
  omega

theorem Ensures.index {xs : List α} {i : Nat} (hexit : exit .panic)
    (h : ∀ a, xs[i]? = some a → post a) : Ensures (index xs i) post exit := by
  rw [Rust.index]
  cases hi : xs[i]? with
  | none => exact hexit
  | some a => exact h a hi

theorem Ensures.store {xs : List α} {i : Nat} {x : α} {post : List α → Prop} (hexit : exit .panic)
    (h : i < xs.length → post (xs.set i x)) : Ensures (store xs i x) post exit := by
  rw [Rust.store]
  by_cases hi : i < xs.length
  · rw [if_pos hi]
    exact h hi
  · rw [if_neg hi]
    exact hexit

end Rust
