import Sdec.Bitstream.Parses

/-!
# When a decoder accepts a layout

`Reads pos read ok items a` says of a call on a slice that continues with the layout `items` both
what it returns and when: `a` if `ok` holds, and otherwise it fails. It is the counterpart of
`Emits` for readers that check what they read.
-/

namespace Sdec.Bitstream

open Rust Bits

variable {ε ε' α β : Type} {pos : Nat} {items more : Layout} {ok ok' : Prop}

/-- On a slice that continues with `items` at bit `pos`, the call returns `a` and stops behind them
if `ok` holds, and fails otherwise. -/
def Reads (pos : Nat) (read : Call ε BitReader α) (ok : Prop) (items : Layout) (a : α) : Prop :=
  (ok → Parses pos read items a) ∧ (¬ ok → Refuses pos read items)

theorem Parses.reads {read : Call ε BitReader α} {a : α} (h : Parses pos read items a) :
    Reads pos read True items a :=
  ⟨fun _ => h, fun hno => absurd trivial hno⟩

theorem Reads.congr {read : Call ε BitReader α} {a : α} (h : Reads pos read ok items a)
    (hok : ok ↔ ok') : Reads pos read ok' items a := by
  rwa [show ok' = ok from propext hok.symm]

theorem Reads.pure (a : α) : Reads pos (pure a : Call ε BitReader α) True [] a :=
  (Parses.pure a).reads

theorem Reads.fault (error : Fault ε) (a : α) :
    Reads pos (fault error : Call ε BitReader α) False items a :=
  ⟨False.elim, fun _ _ _ _ _ => ⟨_, _, rfl⟩⟩

theorem Reads.bind {read : Call ε BitReader α} {next : α → Call ε BitReader β} {a : α} {b : β}
    (h : Reads pos read ok items a) (hnext : ok → Reads (stop pos items) (next a) ok' more b) :
    Reads pos (read >>= next) (ok ∧ ok') (items ++ more) b := by
  refine ⟨fun hok => (h.1 hok.1).bind ((hnext hok.1).1 hok.2), fun hno => ?_⟩
  by_cases hok : ok
  · exact Refuses.bind (h.1 hok) ((hnext hok).2 fun hok' => hno ⟨hok, hok'⟩)
  · exact Refuses.bind_first (h.2 hok)

/-- A reader that accepts everything, before one that checks. -/
theorem Parses.bind_reads {read : Call ε BitReader α} {next : α → Call ε BitReader β} {a : α}
    {b : β} (h : Parses pos read items a) (hnext : Reads (stop pos items) (next a) ok more b) :
    Reads pos (read >>= next) ok (items ++ more) b :=
  (h.reads.bind fun _ => hnext).congr (by rw [true_and])

/-- A reader followed by a pure step. -/
theorem Reads.bind_pure {read : Call ε BitReader α} {f : α → β} {a : α}
    (h : Reads pos read ok items a) :
    Reads pos (read >>= fun a => Pure.pure (f a)) ok items (f a) := by
  have h : Reads pos (read >>= fun a => Pure.pure (f a)) ok (items ++ []) (f a) :=
    (h.bind fun _ => Reads.pure (f a)).congr (and_iff_left trivial)
  rwa [List.append_nil] at h

/-- A check of what was read: `if c { return Err(..) }`. -/
theorem Reads.check {c : Prop} [Decidable c] {next : Unit → Call ε BitReader α} {error : ε} {a : α}
    (h : ¬ c → Reads pos (next ()) ok items a) :
    Reads pos (if c then Rust.fail error >>= next else next ()) (¬ c ∧ ok) items a := by
  by_cases hif : c
  · rw [if_pos hif]
    exact ⟨fun hok => absurd hif hok.1, fun _ _ _ _ _ => ⟨_, _, rfl⟩⟩
  · rw [if_neg hif]
    exact (h hif).congr ⟨fun hok => ⟨hif, hok⟩, fun hok => hok.2⟩

/-- A check that passes. -/
theorem Parses.check {c : Prop} [Decidable c] {next : Unit → Call ε BitReader α} {error : ε} {a : α}
    (hc : ¬ c) (h : Parses pos (next ()) items a) :
    Parses pos (if c then Rust.fail error >>= next else next ()) items a := by
  rwa [if_neg hc]

/-- A pure computation on what was read. -/
theorem Reads.lift {x : Outcome ε α} {next : α → Call ε BitReader β} {b : β}
    (h : ∀ a, x = .ok a → Reads pos (next a) ok items b) (herror : ∀ e, x = .error e → ¬ ok) :
    Reads pos ((liftM x : Call ε BitReader α) >>= next) ok items b := by
  cases hx : x with
  | ok a => exact h a hx
  | error e => exact ⟨fun hok => absurd hok (herror e hx), fun _ _ _ _ _ => ⟨_, _, rfl⟩⟩

/-- A pure computation that succeeds. -/
theorem Reads.lift_ok {x : Outcome ε α} {next : α → Call ε BitReader β} {a : α} {b : β}
    (hx : x = .ok a) (h : Reads pos (next a) ok items b) :
    Reads pos ((liftM x : Call ε BitReader α) >>= next) ok items b := by
  subst hx
  exact h

end Sdec.Bitstream
