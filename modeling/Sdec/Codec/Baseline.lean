import Sdec.Codec.Types

/-!
# The baseline store

A ring buffer of the snapshots a sender has kept, keyed by tick, after `codec/src/baseline.rs`, and
the choice of a baseline among them, after `codec/src/delta.rs`.
-/

namespace Sdec.Codec

open Rust

/-- `BaselineError`. -/
inductive BaselineError where
  | outOfOrder (lastTick newTick : SnapshotTick)
  deriving DecidableEq, Repr

/-- `Entry`. -/
structure Entry (α : Type) where
  tick : SnapshotTick
  value : α
  deriving DecidableEq, Repr

/-- `BaselineStore`. -/
structure BaselineStore (α : Type) where
  entries : List (Option (Entry α))
  head : Nat
  len : Nat
  lastTick : Option SnapshotTick
  deriving DecidableEq, Repr

namespace BaselineStore

variable {α : Type}

/-- `BaselineStore::new`. -/
def new (capacity : Nat) : BaselineStore α := ⟨List.replicate capacity none, 0, 0, none⟩

/-- The check of `BaselineStore::insert` against the last tick. -/
def ensureNewer (store : BaselineStore α) (tick : SnapshotTick) : Outcome BaselineError Unit :=
  match store.lastTick with
  | none => return
  | some last => if tick.raw ≤ last.raw then fail (.outOfOrder last tick) else return

/-- `BaselineStore::insert`. -/
def insert (tick : SnapshotTick) (value : α) : Call BaselineError (BaselineStore α) Unit := do
  let self ← get
  self.ensureNewer tick
  let cap := self.entries.length
  if self.len < cap then
    let idx := (self.head + self.len) % cap
    let entries ← store self.entries idx (some ⟨tick, value⟩)
    set { self with entries, len := self.len + 1, lastTick := some tick }
  else
    let entries ← store self.entries self.head (some ⟨tick, value⟩)
    set { self with entries, head := (self.head + 1) % cap, lastTick := some tick }

/-- `BaselineStore::iter`, from the oldest entry to the newest. -/
def iter (store : BaselineStore α) : Outcome Empty (List (SnapshotTick × α)) := do
  let cap := store.entries.length
  let slots ← (List.range store.len).mapM fun i => index store.entries ((store.head + i) % cap)
  return slots.filterMap fun slot => slot.map fun entry => (entry.tick, entry.value)

/-- `BaselineStore::get`. -/
def get (store : BaselineStore α) (tick : SnapshotTick) : Outcome Empty (Option α) := do
  let pairs ← store.iter
  return (pairs.find? fun (t, _) => t = tick).map Prod.snd

/-- `BaselineStore::latest_at_or_before`. -/
def latestAtOrBefore (store : BaselineStore α) (tick : SnapshotTick) :
    Outcome Empty (Option (SnapshotTick × α)) := do
  let pairs ← store.iter
  return pairs.reverse.find? fun (t, _) => t.raw ≤ tick.raw

end BaselineStore

/-- `select_baseline_tick`. -/
def selectBaselineTick {α : Type} (store : BaselineStore α) (ackTick : SnapshotTick) :
    Outcome Empty (Option SnapshotTick) := do
  let pair ← store.latestAtOrBefore ackTick
  return pair.map Prod.fst

end Sdec.Codec
