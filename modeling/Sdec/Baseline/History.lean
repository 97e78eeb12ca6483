import Sdec.Baseline.Ring
import Sdec.Codec.Baseline
import Sdec.Sorted.Search

/-!
# The history a baseline store keeps

A store that was filled by any calls of `insert` holds the last accepted entries, up to its
capacity. `Holds store history` relates a store to the list of all entries it accepted, `insert_eq`
says what one call does, and `holds_inserts` carries it over any sequence of calls.
-/

namespace Sdec.Codec

open Rust

variable {α : Type}

/-- A tick is newer than the last entry of a history. -/
def Newer (history : List (SnapshotTick × α)) (tick : SnapshotTick) : Prop :=
  ∀ last, history.getLast? = some last → last.1.raw < tick.raw

/-- The last entries of a history that fit a capacity. -/
def window (capacity : Nat) (history : List (SnapshotTick × α)) : List (SnapshotTick × α) :=
  history.drop (history.length - capacity)

/-- A sequence of calls of `insert` on a store, with the history of the entries it accepted. -/
def inserts (store : BaselineStore α) (history : List (SnapshotTick × α)) :
    List (SnapshotTick × α) → BaselineStore α × List (SnapshotTick × α)
  | [] => (store, history)
  | (tick, value) :: calls =>
      match BaselineStore.insert tick value store with
      | .ok _ store => inserts store (history ++ [(tick, value)]) calls
      | .error _ store => inserts store history calls

/-! ## The representation -/

/-- The store holds the window of a history of ascending ticks. -/
structure Holds (capacity : Nat) (store : BaselineStore α) (history : List (SnapshotTick × α)) :
    Prop where
  entries : store.entries.length = capacity
  head : store.head < capacity
  len : store.len = min capacity history.length
  slots : Ring.read store.entries store.head store.len
    = (window capacity history).map fun entry => some ⟨entry.1, entry.2⟩
  lastTick : store.lastTick = history.getLast?.map Prod.fst
  ascending : history.Pairwise fun a b => a.1.raw < b.1.raw

theorem holds_new {capacity : Nat} (h : 0 < capacity) :
    Holds capacity (BaselineStore.new capacity) ([] : List (SnapshotTick × α)) where
  entries := List.length_replicate
  head := h
  len := by simp [BaselineStore.new]
  slots := by simp [BaselineStore.new, Ring.read, window]
  lastTick := rfl
  ascending := .nil

variable {capacity : Nat} {store : BaselineStore α} {history : List (SnapshotTick × α)}

theorem window_of_le (h : history.length ≤ capacity) : window capacity history = history := by
  rw [window, Nat.sub_eq_zero_of_le h, List.drop_zero]

/-- One more entry moves the window of a history that fills it. -/
theorem window_append (entry : SnapshotTick × α) (hcap : 0 < capacity)
    (h : capacity ≤ history.length) :
    window capacity (history ++ [entry]) = (window capacity history).tail ++ [entry] := by
  rw [window, window, List.length_append, List.length_singleton,
    List.drop_append_of_le_length (by omega), List.tail_drop]
  congr 2
  omega

theorem length_window : (window capacity history).length = min capacity history.length := by
  rw [window, List.length_drop]
  omega

/-- The check of `insert` is the one of the specification. -/
theorem ensure_newer_eq (h : Holds capacity store history) (tick : SnapshotTick) :
    (Newer history tick → store.ensureNewer tick = .ok ()) ∧
    (¬ Newer history tick → ∃ last, store.ensureNewer tick = fail (.outOfOrder last tick)) := by
  rw [BaselineStore.ensureNewer, h.lastTick]
  cases hlast : history.getLast? with
  | none =>
      refine ⟨fun _ => rfl, fun hno => absurd (fun last hlast' => ?_) hno⟩
      rw [hlast] at hlast'
      cases hlast'
  | some last =>
      simp only [Option.map_some]
      refine ⟨fun hnewer => if_neg (UInt32.not_le.mpr (hnewer last hlast)), fun hno =>
        ⟨last.1, if_pos ?_⟩⟩
      refine UInt32.not_lt.mp fun hlt => hno fun last' hlast' => ?_
      rw [hlast] at hlast'
      cases hlast'
      exact hlt

/-- An ascending history with a newer entry ascends. -/
theorem ascending_append {tick : SnapshotTick} (value : α)
    (h : history.Pairwise fun a b => a.1.raw < b.1.raw) (hnewer : Newer history tick) :
    (history ++ [(tick, value)]).Pairwise fun a b => a.1.raw < b.1.raw := by
  refine List.pairwise_append.mpr ⟨h, List.pairwise_singleton _ _, fun a ha b hb => ?_⟩
  cases List.mem_singleton.mp hb
  obtain ⟨front, last, rfl⟩ :=
    List.eq_nil_or_concat' history |>.resolve_left (List.ne_nil_of_mem ha)
  have hlast := hnewer last (by simp)
  rcases List.mem_append.mp ha with ha | ha
  · exact UInt32.lt_trans ((List.pairwise_append.mp h).2.2 a ha last (by simp)) hlast
  · cases List.mem_singleton.mp ha
    exact hlast

/-- One call of `insert`: a newer entry is appended to the history, and any other is refused and
changes nothing. -/
theorem insert_eq (hcap : 0 < capacity) (h : Holds capacity store history) (tick : SnapshotTick)
    (value : α) :
    (Newer history tick → ∃ store', BaselineStore.insert tick value store = .ok () store'
      ∧ Holds capacity store' (history ++ [(tick, value)])) ∧
    (¬ Newer history tick → ∃ last, BaselineStore.insert tick value store
      = .error (.err (.outOfOrder last tick)) store) := by
  obtain ⟨hok, herror⟩ := ensure_newer_eq h tick
  have hentries := h.entries
  have hlen := h.len
  refine ⟨fun hnewer => ?_, fun hno => ?_⟩
  · have hlast : some tick = (history ++ [(tick, value)]).getLast?.map Prod.fst := by simp
    have hascending := ascending_append value h.ascending hnewer
    by_cases hroom : store.len < capacity
    · -- The next slot is filled.
      have hshort : history.length < capacity := by omega
      have hslots :=
        Ring.read_set_of_room store.head (hentries ▸ hroom) (some (Entry.mk tick value))
      refine ⟨⟨store.entries.set ((store.head + store.len) % capacity) (some ⟨tick, value⟩),
        store.head, store.len + 1, some tick⟩, ?_, ?_⟩
      · simp only [BaselineStore.insert, bind_apply, get_apply, hok hnewer, liftM, monadLift,
          MonadLift.monadLift, lift_outcome_ok, hentries, if_pos hroom]
        rw [store_of_lt (by rw [hentries]; exact Nat.mod_lt _ hcap)]
        rfl
      · refine ⟨by simpa using hentries, h.head, ?_, ?_, hlast, hascending⟩
        · simp
          omega
        · rw [hentries] at hslots
          rw [hslots, h.slots, window_of_le (by omega), window_of_le (by simp; omega),
            List.map_append]
          rfl
    · -- The oldest entry is overwritten.
      have hlong : capacity ≤ history.length := by omega
      have hfull : store.len = store.entries.length := by omega
      have hslots := Ring.read_set_of_full (hentries ▸ h.head) (some (Entry.mk tick value))
      refine ⟨⟨store.entries.set store.head (some ⟨tick, value⟩), (store.head + 1) % capacity,
        store.len, some tick⟩, ?_, ?_⟩
      · simp only [BaselineStore.insert, bind_apply, get_apply, hok hnewer, liftM, monadLift,
          MonadLift.monadLift, lift_outcome_ok, hentries, if_neg hroom]
        rw [store_of_lt (hentries ▸ h.head)]
        rfl
      · refine ⟨by simpa using hentries, Nat.mod_lt _ hcap, ?_, ?_, hlast, hascending⟩
        · simp
          omega
        · rw [← hfull, h.slots, hfull, hentries] at hslots
          dsimp only
          rw [hfull, hentries, hslots, window_append _ hcap hlong, List.map_append, List.map_tail]
          rfl
  · obtain ⟨last, hlast⟩ := herror hno
    refine ⟨last, ?_⟩
    simp only [BaselineStore.insert, bind_apply, get_apply, hlast, liftM, monadLift,
      MonadLift.monadLift]
    rfl

/-- Any sequence of calls of `insert` leaves a store that holds the accepted entries. -/
theorem holds_inserts (hcap : 0 < capacity) (calls : List (SnapshotTick × α))
    (h : Holds capacity store history) :
    Holds capacity (inserts store history calls).1 (inserts store history calls).2 := by
  induction calls generalizing store history with
  | nil => exact h
  | cons entry calls ih =>
      obtain ⟨hok, herror⟩ := insert_eq hcap h entry.1 entry.2
      rw [inserts]
      by_cases hnewer : Newer history entry.1
      · obtain ⟨store', hrun, hholds⟩ := hok hnewer
        simp only [hrun]
        exact ih hholds
      · obtain ⟨last, hrun⟩ := herror hnewer
        simp only [hrun]
        exact ih h

/-! ## Reading the store -/

theorem ascending_window (h : Holds capacity store history) :
    (window capacity history).Pairwise fun a b => a.1.raw < b.1.raw :=
  h.ascending.sublist (List.drop_sublist _ _)

/-- Reading the slots of a ring never leaves it. -/
theorem mapM_index_eq {ε β : Type} {slots : List β} (hpos : 0 < slots.length) (head len : Nat) :
    ((List.range len).mapM fun i => index slots ((head + i) % slots.length) : Outcome ε (List β))
      = pure (Ring.read slots head len) := by
  induction len with
  | zero => rfl
  | succ len ih =>
      obtain ⟨slot, hslot⟩ : ∃ slot, slots[(head + len) % slots.length]? = some slot :=
        ⟨_, List.getElem?_eq_getElem (Nat.mod_lt _ hpos)⟩
      have hread : Ring.read slots head (len + 1) = Ring.read slots head len ++ [slot] := by
        rw [Ring.read, List.range_succ, List.filterMap_append, ← Ring.read]
        simp [hslot]
      rw [List.range_succ, List.mapM_append, ih, hread]
      simp [index_of_some hslot]

/-- `iter` yields the window of the history. -/
theorem iter_eq (hcap : 0 < capacity) (h : Holds capacity store history) :
    store.iter = .ok (window capacity history) := by
  have hpos : 0 < store.entries.length := by rwa [h.entries]
  rw [BaselineStore.iter]
  simp only [mapM_index_eq hpos, pure_bind, h.slots, List.filterMap_map, Function.comp_def,
    Option.map_some]
  exact congrArg Except.ok List.filterMap_some

/-- Entries of an ascending history with the same tick are the same. -/
theorem eq_of_tick_eq (h : history.Pairwise fun a b => a.1.raw < b.1.raw) {a b : SnapshotTick × α}
    (ha : a ∈ history) (hb : b ∈ history) (htick : a.1 = b.1) : a = b := by
  induction history with
  | nil => cases ha
  | cons x xs ih =>
      have hx := List.pairwise_cons.mp h
      rcases List.mem_cons.mp ha with rfl | ha'
      · rcases List.mem_cons.mp hb with rfl | hb'
        · rfl
        · exact absurd (htick ▸ hx.1 b hb') (UInt32.lt_irrefl _)
      · rcases List.mem_cons.mp hb with rfl | hb'
        · exact absurd (htick ▸ hx.1 a ha') (UInt32.lt_irrefl _)
        · exact ih hx.2 ha' hb'

/-- `get` finds the value of a tick in the window. -/
theorem get_eq (hcap : 0 < capacity) (h : Holds capacity store history) (tick : SnapshotTick) :
    ∃ result, store.get tick = .ok result
      ∧ ∀ value, result = some value ↔ (tick, value) ∈ window capacity history := by
  refine ⟨_, by rw [BaselineStore.get, iter_eq hcap h]; rfl, fun value => ?_⟩
  have hfind (entry : SnapshotTick × α) :
      (window capacity history).find? (fun other => other.1 = tick) = some entry
        ↔ entry ∈ window capacity history ∧ entry.1 = tick := by
    refine (Sorted.find_eq_some_of_unique fun a ha b hb hpa hpb => ?_).trans (by simp)
    exact eq_of_tick_eq (ascending_window h) ha hb (by simp_all)
  rw [Option.map_eq_some_iff]
  constructor
  · rintro ⟨entry, hentry, rfl⟩
    obtain ⟨hmem, rfl⟩ := (hfind entry).mp hentry
    exact hmem
  · exact fun hmem => ⟨(tick, value), (hfind _).mpr ⟨hmem, rfl⟩, rfl⟩

/-- `latest_at_or_before` finds the entry with the greatest tick that is not above the given one. -/
theorem latest_at_or_before_eq (hcap : 0 < capacity) (h : Holds capacity store history)
    (tick : SnapshotTick) :
    ∃ result, store.latestAtOrBefore tick = .ok result
      ∧ (∀ entry, result = some entry ↔ entry ∈ window capacity history ∧ entry.1.raw ≤ tick.raw
        ∧ ∀ other ∈ window capacity history, other.1.raw ≤ tick.raw → other.1.raw ≤ entry.1.raw)
      ∧ (result = none ↔ ∀ other ∈ window capacity history, ¬ other.1.raw ≤ tick.raw) := by
  refine ⟨_, by rw [BaselineStore.latestAtOrBefore, iter_eq hcap h]; rfl, fun entry => ?_, ?_⟩
  · rw [Sorted.find_reverse_eq_some (fun a b hab => UInt32.not_lt.mpr (UInt32.le_of_lt hab))
      (ascending_window h)]
    simp only [decide_eq_true_eq]
    refine and_congr_right fun hmem => and_congr_right fun _ => forall_congr' fun other =>
      forall_congr' fun hother => imp_congr_right fun _ => ⟨fun hlast => ?_, fun hle => ?_⟩
    · rcases hlast with rfl | hlt
      · exact UInt32.le_refl _
      · exact UInt32.le_of_lt hlt
    · rcases UInt32.lt_or_eq_of_le hle with hlt | heq
      · exact .inr hlt
      · exact .inl (eq_of_tick_eq (ascending_window h) hother hmem
          (congrArg SnapshotTick.mk heq : SnapshotTick.mk _ = SnapshotTick.mk _))
  · rw [List.find?_eq_none]
    simp

/-- After any sequence of calls of `insert`, accepted or not, the store is the bounded suffix of the
log of the accepted entries. -/
theorem baseline_store_eq_window (hcap : 0 < capacity) (calls : List (SnapshotTick × α)) :
    let (store, history) := inserts (BaselineStore.new capacity) [] calls
    (∀ tick value,
      (Newer history tick → ∃ store', BaselineStore.insert tick value store = .ok () store') ∧
      (¬ Newer history tick → ∃ last, BaselineStore.insert tick value store
        = .error (.err (.outOfOrder last tick)) store)) ∧
    store.iter = .ok (window capacity history) ∧
    ((window capacity history).Pairwise fun a b => a.1.raw < b.1.raw) ∧
    store.len = (window capacity history).length ∧
    (∀ tick, ∃ result, store.get tick = .ok result
      ∧ ∀ value, result = some value ↔ (tick, value) ∈ window capacity history) ∧
    (∀ tick, ∃ result, store.latestAtOrBefore tick = .ok result
      ∧ (∀ entry, result = some entry ↔ entry ∈ window capacity history ∧ entry.1.raw ≤ tick.raw
        ∧ ∀ other ∈ window capacity history, other.1.raw ≤ tick.raw → other.1.raw ≤ entry.1.raw)
      ∧ (result = none ↔ ∀ other ∈ window capacity history, ¬ other.1.raw ≤ tick.raw)) := by
  have h := holds_inserts hcap calls (holds_new (α := α) hcap)
  refine ⟨fun tick value => ?_, iter_eq hcap h, ascending_window h, ?_, get_eq hcap h,
    latest_at_or_before_eq hcap h⟩
  · obtain ⟨hok, herror⟩ := insert_eq hcap h tick value
    exact ⟨fun hnewer => (hok hnewer).imp fun _ => And.left, herror⟩
  · rw [h.len, length_window]

/-- The ring of two slots behind a call that fits, one that is refused, and two that wrap. -/
theorem baseline_store_eq_window_two :
    (inserts (BaselineStore.new 2) [] [(⟨1⟩, 'a'), (⟨1⟩, 'b'), (⟨4⟩, 'c'), (⟨6⟩, 'd')]).1.iter
      = .ok [(⟨4⟩, 'c'), (⟨6⟩, 'd')] :=
  (baseline_store_eq_window (α := Char) (by decide : 0 < 2)
    [(⟨1⟩, 'a'), (⟨1⟩, 'b'), (⟨4⟩, 'c'), (⟨6⟩, 'd')]).2.1

/-! ## Selecting a baseline -/

/-- What the window has dropped is older than all it keeps. -/
theorem mem_window_or_lt (h : history.Pairwise fun a b => a.1.raw < b.1.raw)
    {entry : SnapshotTick × α} (hentry : entry ∈ history) :
    entry ∈ window capacity history
      ∨ ∀ other ∈ window capacity history, entry.1.raw < other.1.raw := by
  rw [← List.take_append_drop (history.length - capacity) history] at hentry h
  rcases List.mem_append.mp hentry with hdropped | hkept
  · exact .inr fun other hother => (List.pairwise_append.mp h).2.2 entry hdropped other hother
  · exact .inl hkept

/-- The store selects a tick that it has accepted while the window keeps its entry, and nothing once
it has dropped it. -/
theorem select_baseline_tick_eq (hcap : 0 < capacity) (h : Holds capacity store history)
    {entry : SnapshotTick × α} (hentry : entry ∈ history) :
    (entry ∈ window capacity history → selectBaselineTick store entry.1 = .ok (some entry.1)) ∧
    (entry ∉ window capacity history → selectBaselineTick store entry.1 = .ok none) := by
  obtain ⟨result, hresult, hsome, hnone⟩ := latest_at_or_before_eq hcap h entry.1
  have hselect : selectBaselineTick store entry.1 = .ok (result.map Prod.fst) := by
    rw [selectBaselineTick, hresult]
    rfl
  rw [hselect]
  refine ⟨fun hkept => ?_, fun hdropped => ?_⟩
  · rw [(hsome entry).mpr ⟨hkept, UInt32.le_refl _, fun other _ hle => hle⟩]
    rfl
  · have hnewer := (mem_window_or_lt h.ascending hentry).resolve_left hdropped
    rw [hnone.mpr fun other hother => UInt32.not_le.mpr (hnewer other hother)]
    rfl

/-- After any sequence of calls of `insert`, an acknowledged tick that was once accepted is selected
itself, or nothing is once its entry has been overwritten, and never an older tick. -/
theorem select_baseline_tick_acknowledged (hcap : 0 < capacity) (calls : List (SnapshotTick × α)) :
    let (store, history) := inserts (BaselineStore.new capacity) [] calls
    ∀ entry ∈ history,
      (entry ∈ window capacity history → selectBaselineTick store entry.1 = .ok (some entry.1)) ∧
      (entry ∉ window capacity history → selectBaselineTick store entry.1 = .ok none) := by
  have h := holds_inserts hcap calls (holds_new (α := α) hcap)
  exact fun entry hentry => select_baseline_tick_eq hcap h hentry

/-- A ring of two slots has dropped the first of three ticks and still selects the second. -/
theorem select_baseline_tick_acknowledged_two :
    let (store, _) := inserts (BaselineStore.new 2) [] [(⟨1⟩, 'a'), (⟨4⟩, 'b'), (⟨6⟩, 'c')]
    selectBaselineTick store ⟨1⟩ = .ok none ∧ selectBaselineTick store ⟨4⟩ = .ok (some ⟨4⟩) := by
  have h := select_baseline_tick_acknowledged (by decide : 0 < 2)
    [(⟨1⟩, 'a'), (⟨4⟩, 'b'), (⟨6⟩, 'c')]
  exact ⟨(h (⟨1⟩, 'a') (by decide)).2 (by decide), (h (⟨4⟩, 'b') (by decide)).1 (by decide)⟩

end Sdec.Codec
