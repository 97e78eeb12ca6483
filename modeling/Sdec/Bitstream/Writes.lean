import Sdec.Bitstream.Emits

/-!
# What an encoder writes

`Writes pos write facts items` is `Emits` with less said of when the call succeeds: either it fails
on every buffer, or it writes `items` into every buffer that has room for them and returns a value
that satisfies `facts`. It is what the encoders of components, entities and section bodies are shown
to do. A loop writes the layouts of its elements one after another.
-/

namespace Sdec.Bitstream

open Rust Bits

variable {ε ε' σ α β : Type} {pos : Nat} {items more : Layout} {facts : α → Prop}

/-- The call fails on every buffer at bit `pos`. -/
def Fails (pos : Nat) (write : Call ε BitWriter α) : Prop :=
  ∀ buf, pos ≤ capacity buf → ∃ error writer, write ⟨buf, pos⟩ = .error error writer

/-- On buffers at bit `pos`, the call either always fails, or it writes `items` wherever they fit
and returns a value that satisfies `facts`. -/
def Writes (pos : Nat) (write : Call ε BitWriter α) (facts : α → Prop) (items : Layout) : Prop :=
  Fails pos write ∨ ∃ a, facts a ∧ Emits pos write True items a

/-- A sequence whose first call fails. -/
theorem Fails.bind {write : Call ε BitWriter α} (h : Fails pos write)
    (next : α → Call ε BitWriter β) : Fails pos (write >>= next) := by
  intro buf hpos
  obtain ⟨error, writer, hrun⟩ := h buf hpos
  exact ⟨error, writer, by rw [bind_apply, hrun]⟩

/-- A sequence whose second call fails. -/
theorem Emits.bind_fails {write : Call ε BitWriter α} {next : α → Call ε BitWriter β} {a : α}
    (h : Emits pos write True items a) (hnext : Fails (stop pos items) (next a)) :
    Fails pos (write >>= next) := by
  intro buf hpos
  obtain ⟨hwrite, herror⟩ := h buf hpos
  by_cases hfits : stop pos items ≤ capacity buf
  · obtain ⟨buf', hrun, hbits⟩ := hwrite trivial hfits
    rw [bind_apply, hrun]
    exact hnext buf' (by rwa [capacity_eq_of_overwrite hbits hfits])
  · obtain ⟨error, writer, hrun⟩ := herror fun hyes => hfits hyes.2
    exact ⟨error, writer, by rw [bind_apply, hrun]⟩

theorem Emits.writes {ok : Prop} {write : Call ε BitWriter α} {a : α}
    (h : Emits pos write ok items a) (hfacts : ok → facts a) : Writes pos write facts items := by
  by_cases hok : ok
  · exact .inr ⟨a, hfacts hok, h.congr ⟨fun _ => trivial, fun _ => hok⟩⟩
  · exact .inl fun buf hpos => (h buf hpos).2 fun hyes => hok hyes.1

/-- A call that always succeeds. -/
theorem Emits.writes_true {write : Call ε BitWriter α} {a : α} (h : Emits pos write True items a) :
    Writes pos write (fun _ => True) items :=
  h.writes id

theorem Writes.mono {write : Call ε BitWriter α} {facts' : α → Prop}
    (h : Writes pos write facts items) (hfacts : ∀ a, facts a → facts' a) :
    Writes pos write facts' items :=
  h.imp_right fun ⟨a, ha, hemits⟩ => ⟨a, hfacts a ha, hemits⟩

theorem Writes.pure {a : α} (h : facts a) : Writes pos (pure a : Call ε BitWriter α) facts [] :=
  .inr ⟨a, h, Emits.pure a⟩

theorem Writes.fail (error : ε) : Writes pos (fail error : Call ε BitWriter α) facts items :=
  .inl fun _ _ => ⟨_, _, rfl⟩

theorem Writes.bind {write : Call ε BitWriter α} {next : α → Call ε BitWriter β}
    {facts' : β → Prop} (h : Writes pos write facts items)
    (hnext : ∀ a, facts a → Writes (stop pos items) (next a) facts' more) :
    Writes pos (write >>= next) facts' (items ++ more) := by
  rcases h with hfails | ⟨a, ha, hemits⟩
  · exact .inl (hfails.bind next)
  rcases hnext a ha with hfails | ⟨b, hb, hemits'⟩
  · exact .inl (hemits.bind_fails hfails)
  · exact .inr ⟨b, hb, (hemits.bind fun _ => hemits').congr (and_self_iff (a := True))⟩

/-- A first item written on its own. -/
theorem Writes.cons {write : Call ε BitWriter α} {next : α → Call ε BitWriter β} {item : Item}
    {facts' : β → Prop} (h : Writes pos write facts [item])
    (hnext : ∀ a, facts a → Writes (stop pos [item]) (next a) facts' more) :
    Writes pos (write >>= next) facts' (item :: more) :=
  Writes.bind h hnext

/-- A call that writes nothing but checks or computes. -/
theorem Writes.lift {x : Outcome ε α} {next : α → Call ε BitWriter β} {facts : β → Prop}
    (h : ∀ a, x = .ok a → Writes pos (next a) facts items) :
    Writes pos ((liftM x : Call ε BitWriter α) >>= next) facts items := by
  cases hx : x with
  | ok a => exact h a hx
  | error e => exact .inl fun _ _ => ⟨_, _, rfl⟩

/-- A check before a write: `if c { return Err(..) }`. -/
theorem Writes.check {c : Prop} [Decidable c] {next : Unit → Call ε BitWriter α} {error : ε}
    (h : ¬ c → Writes pos (next ()) facts items) :
    Writes pos (if c then Rust.fail error >>= next else next ()) facts items := by
  by_cases hif : c
  · rw [if_pos hif]
    exact .inl fun _ _ => ⟨_, _, rfl⟩
  · rw [if_neg hif]
    exact h hif

/-- Where a call has succeeded, another one with the same layout leaves the same buffer. -/
theorem Writes.same_of_ok {x : Call ε BitWriter α} {y : Call ε BitWriter β} {b : β}
    (h : Writes pos x facts items) (hy : ∀ a, facts a → Emits pos y True items b) {buf : List UInt8}
    (hpos : pos ≤ capacity buf) {a : α} {writer : BitWriter} (hrun : x ⟨buf, pos⟩ = .ok a writer) :
    y ⟨buf, pos⟩ = .ok b writer := by
  rcases h with hfails | ⟨a', ha, hemits⟩
  · obtain ⟨error, writer', herror⟩ := hfails buf hpos
    rw [herror] at hrun
    cases hrun
  obtain ⟨hwrite, herror⟩ := hemits buf hpos
  by_cases hfits : stop pos items ≤ capacity buf
  · obtain ⟨buf₁, hrun₁, hbits₁⟩ := hwrite trivial hfits
    obtain ⟨buf₂, hrun₂, hbits₂⟩ := (hy a' ha buf hpos).1 trivial hfits
    rw [hrun₁] at hrun
    cases hrun
    rw [hrun₂, ofBytes_injective (hbits₂.trans hbits₁.symm)]
  · obtain ⟨error, writer', hrun'⟩ := herror fun hyes => hfits hyes.2
    rw [hrun'] at hrun
    cases hrun

/-! ## Loops -/

/-- A loop with an accumulator whose invariant each iteration keeps. -/
theorem Writes.foldlM {f : σ → β → Call ε BitWriter σ} {layout : β → Layout} {xs : List β} {s : σ}
    (invariant : σ → Prop) (p : β → Prop) (hs : invariant s)
    (h : ∀ x ∈ xs, ∀ s pos, invariant s →
      Writes pos (f s x) (fun s => invariant s ∧ p x) (layout x)) :
    Writes pos (xs.foldlM f s) (fun s => invariant s ∧ ∀ x ∈ xs, p x) (xs.flatMap layout) := by
  induction xs generalizing s pos with
  | nil => exact Writes.pure ⟨hs, by simp⟩
  | cons x xs ih =>
      rw [List.foldlM_cons, List.flatMap_cons]
      refine (h x List.mem_cons_self s pos hs).bind fun s hs => ?_
      refine (ih hs.1 fun y hy => h y (List.mem_cons_of_mem _ hy)).mono fun s' hs' => ?_
      exact ⟨hs'.1, List.forall_mem_cons.mpr ⟨hs.2, hs'.2⟩⟩

/-- A loop without an accumulator. -/
theorem Writes.forM {f : β → Call ε BitWriter PUnit} {p : β → Prop} {layout : β → Layout}
    {xs : List β} (h : ∀ x ∈ xs, ∀ pos, Writes pos (f x) (fun _ => p x) (layout x)) :
    Writes pos (xs.forM f) (fun _ => ∀ x ∈ xs, p x) (xs.flatMap layout) := by
  induction xs generalizing pos with
  | nil => exact Writes.pure (by simp)
  | cons x xs ih =>
      rw [List.forM, List.flatMap_cons]
      refine (h x List.mem_cons_self pos).bind fun _ hx => ?_
      exact (ih fun y hy => h y (List.mem_cons_of_mem _ hy)).mono fun _ hxs =>
        List.forall_mem_cons.mpr ⟨hx, hxs⟩

end Sdec.Bitstream
