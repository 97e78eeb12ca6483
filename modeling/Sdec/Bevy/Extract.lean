import Sdec.Bevy.Schema
import Sdec.Bevy.Tracking
import Mathlib.Data.List.Sort

/-!
# Extracting changes from a world

`extract_changes`, after `sdec-bevy/src/extract.rs`: the entities to create, destroy and update that
a server finds in what its world reports. The hash maps and sets are walked in some order, which is
an argument here.
-/

namespace Sdec.Bevy

open Rust

variable {ε κ V : Type}

/-- An order in which a hash set is walked. -/
structure HashOrder (α : Type) where
  order : List α → List α
  perm : ∀ xs, (order xs).Perm xs

/-- The orders of the sets of one call. -/
structure ExtractOrders where
  creates : HashOrder Entity
  updates : HashOrder Entity
  destroys : HashOrder EntityId

/-- `BevyChangeSet`. -/
structure BevyChangeSet where
  creates : List EntitySnapshot
  destroys : List EntityId
  updates : List DeltaUpdateEntity

/-- `ExtractScratch`. The map of updates has its keys in a list of their own. -/
structure ExtractScratch where
  createEntities : List Entity
  updateEntities : List Entity
  updateComponents : Entity → List ComponentId
  destroys : List EntityId

namespace ExtractScratch

/-- `ExtractScratch::default`. -/
def default : ExtractScratch := ⟨[], [], fun _ => [], []⟩

/-- `scratch.create_entities.insert(entity)`. -/
def addCreate (scratch : ExtractScratch) (e : Entity) : ExtractScratch :=
  { scratch with createEntities := scratch.createEntities.insert e }

/-- `scratch.update_entities.entry(entity).or_default().push(component_id)`. -/
def addUpdate (id : ComponentId) (scratch : ExtractScratch) (e : Entity) : ExtractScratch :=
  { scratch with
    updateEntities := scratch.updateEntities.insert e
    updateComponents :=
      Function.update scratch.updateComponents e (scratch.updateComponents e ++ [id]) }

/-- The loop body over the removed entities. -/
def addDestroy (map : EntityMap) (scratch : ExtractScratch) (e : Entity) : ExtractScratch :=
  match map.entityIdKnown e with
  | some id => { scratch with destroys := scratch.destroys.insert id }
  | none => scratch

end ExtractScratch

/-- The entities that a world ever had for which a component is reported. -/
def TrackedWorld.reported (tracked : TrackedWorld κ V) (report : Entity → κ → Bool) (k : κ) :
    List Entity :=
  ((List.range tracked.world.spawned).map Entity.mk).filter fun e => report e k

namespace ComponentAdapter

/-- `added_entities`. -/
def addedEntities (adapter : ComponentAdapter ε κ V) (tracked : TrackedWorld κ V) : List Entity :=
  tracked.reported tracked.added adapter.typeId

/-- `changed_entities`. -/
def changedEntities (adapter : ComponentAdapter ε κ V) (tracked : TrackedWorld κ V) : List Entity :=
  tracked.reported tracked.changed adapter.typeId

/-- `removed_entities`. -/
def removedEntities (adapter : ComponentAdapter ε κ V) (tracked : TrackedWorld κ V) : List Entity :=
  tracked.reported tracked.removed adapter.typeId

/-- `update_component`. -/
def updateComponent (adapter : ComponentAdapter ε κ V) (world : World κ V) (e : Entity) :
    Option DeltaUpdateComponent :=
  (world.get e adapter.typeId).map fun component =>
    ⟨adapter.componentId, (adapter.readFields component).zipIdx.map Prod.swap⟩

/-- The body of the first loop of `extract_changes_with_scratch`. -/
def collect (tracked : TrackedWorld κ V) (map : EntityMap) (scratch : ExtractScratch)
    (adapter : ComponentAdapter ε κ V) : ExtractScratch :=
  let scratch := (adapter.addedEntities tracked).foldl ExtractScratch.addCreate scratch
  let scratch := (adapter.changedEntities tracked).foldl
    (ExtractScratch.addUpdate adapter.componentId) scratch
  (adapter.removedEntities tracked).foldl (ExtractScratch.addDestroy map) scratch

end ComponentAdapter

namespace BevySchema

variable (bevy : BevySchema ε κ V)

/-- The second loop of `extract_changes_with_scratch`. -/
def extractCreates (world : World κ V) : List Entity → EntityMap → List EntitySnapshot × EntityMap
  | [], map => ([], map)
  | e :: rest, map =>
      let numbered := map.entityId e
      let components := bevy.snapshotEntity world e
      let creates := extractCreates world rest numbered.2
      if components.isEmpty then creates else (⟨numbered.1, components⟩ :: creates.1, creates.2)

/-- The components of one update: the inner loop of the third loop. -/
def updateComponents (world : World κ V) (e : Entity) (ids : List ComponentId) :
    List DeltaUpdateComponent :=
  ids.filterMap fun id =>
    (bevy.adapterByComponent id).bind fun adapter => adapter.updateComponent world e

/-- The third loop of `extract_changes_with_scratch`. -/
def extractUpdates (world : World κ V) (scratch : ExtractScratch) :
    List Entity → EntityMap → List DeltaUpdateEntity × EntityMap
  | [], map => ([], map)
  | e :: rest, map =>
      if e ∈ scratch.createEntities then extractUpdates world scratch rest map
      else
        let numbered := map.entityId e
        let components := bevy.updateComponents world e (scratch.updateComponents e)
        let updates := extractUpdates world scratch rest numbered.2
        if components.isEmpty then updates else (⟨numbered.1, components⟩ :: updates.1, updates.2)

/-- The first loop of `extract_changes_with_scratch`. -/
def collect (tracked : TrackedWorld κ V) (map : EntityMap) : ExtractScratch :=
  bevy.adapters.foldl (ComponentAdapter.collect tracked map) .default

/-- `extract_changes`. -/
def extractChanges (orders : ExtractOrders) (tracked : TrackedWorld κ V) (map : EntityMap) :
    BevyChangeSet × EntityMap :=
  let scratch := bevy.collect tracked map
  let creates := bevy.extractCreates tracked.world (orders.creates.order scratch.createEntities) map
  let updates := bevy.extractUpdates tracked.world scratch
    (orders.updates.order scratch.updateEntities) creates.2
  (⟨creates.1.insertionSort fun a b => a.id.raw ≤ b.id.raw,
    (orders.destroys.order scratch.destroys).insertionSort fun a b => a.raw ≤ b.raw,
    updates.1.insertionSort fun a b => a.id.raw ≤ b.id.raw⟩, updates.2)

end BevySchema

/-! ## What is collected -/

/-- An entity is reported for the component of an adapter. -/
def BevySchema.Reports (bevy : BevySchema ε κ V) (report : Entity → κ → Bool) (e : Entity) : Prop :=
  ∃ adapter ∈ bevy.adapters, report e adapter.typeId = true

section Collect

variable {tracked : TrackedWorld κ V} {map : EntityMap} {scratch : ExtractScratch}
  {report : Entity → κ → Bool} {e : Entity}

theorem mem_reported (h : ∀ e k, report e k = true → e.index < tracked.world.spawned) {k : κ} :
    e ∈ tracked.reported report k ↔ report e k = true := by
  unfold TrackedWorld.reported
  rw [List.mem_filter, List.mem_map]
  refine and_iff_right_of_imp fun hreport => ⟨e.index, List.mem_range.mpr (h e k hreport), rfl⟩

theorem reported_nodup (k : κ) : (tracked.reported report k).Nodup := by
  unfold TrackedWorld.reported
  refine (List.nodup_range.map fun a b hab => ?_).filter _
  exact congrArg Entity.index hab

theorem fold_add_create (es : List Entity) (scratch : ExtractScratch) :
    es.foldl ExtractScratch.addCreate scratch
      = { scratch with
          createEntities := es.foldl (fun xs e => xs.insert e) scratch.createEntities } := by
  induction es generalizing scratch with
  | nil => rfl
  | cons e es ih => exact ih _

theorem mem_fold_insert {α : Type} [DecidableEq α] {ys xs : List α} {x : α} :
    x ∈ ys.foldl (fun xs y => xs.insert y) xs ↔ x ∈ ys ∨ x ∈ xs := by
  induction ys generalizing xs with
  | nil => exact (or_iff_right List.not_mem_nil).symm
  | cons y ys ih =>
      rw [List.foldl_cons, ih, List.mem_insert_iff, List.mem_cons, or_left_comm, or_assoc]

theorem nodup_fold_insert {α : Type} [DecidableEq α] {ys xs : List α} (h : xs.Nodup) :
    (ys.foldl (fun xs y => xs.insert y) xs).Nodup := by
  induction ys generalizing xs with
  | nil => exact h
  | cons y ys ih => exact ih h.insert

/-- The loop over the changed entities of one adapter. -/
theorem fold_add_update (id : ComponentId) {es : List Entity} (hnodup : es.Nodup)
    (scratch : ExtractScratch) :
    es.foldl (ExtractScratch.addUpdate id) scratch
      = { scratch with
          updateEntities := es.foldl (fun xs e => xs.insert e) scratch.updateEntities
          updateComponents := fun e =>
            if e ∈ es then scratch.updateComponents e
              ++ [id] else scratch.updateComponents e } := by
  induction es generalizing scratch with
  | nil => simp only [List.foldl_nil, List.not_mem_nil, if_false]
  | cons e es ih =>
      rw [List.nodup_cons] at hnodup
      rw [List.foldl_cons, ih hnodup.2, ExtractScratch.addUpdate, List.foldl_cons]
      refine congrArg (fun f => (⟨_, _, f, _⟩ : ExtractScratch)) (funext fun e' => ?_)
      dsimp only
      by_cases he : e' = e
      · subst he
        rw [if_neg hnodup.1, Function.update_self, if_pos List.mem_cons_self]
      · rw [Function.update_of_ne he]
        simp only [List.mem_cons, he, false_or]

/-- The loop over the removed entities of one adapter. -/
theorem fold_add_destroy (es : List Entity) (scratch : ExtractScratch) :
    es.foldl (ExtractScratch.addDestroy map) scratch
      = { scratch with
          destroys :=
            (es.filterMap map.toId).foldl (fun xs id => xs.insert id) scratch.destroys } := by
  induction es generalizing scratch with
  | nil => rfl
  | cons e es ih =>
      rw [List.foldl_cons, ih, ExtractScratch.addDestroy, EntityMap.entityIdKnown]
      cases hid : map.toId e with
      | none => rw [List.filterMap_cons_none hid]
      | some id => rw [List.filterMap_cons_some hid, List.foldl_cons]

/-- What is reported is in the range of the entities. -/
theorem TrackedWorld.Tracks.index_lt {before : World κ V} (h : tracked.Tracks before) {k : κ}
    (hreport : tracked.added e k = true ∨ tracked.changed e k = true ∨ tracked.removed e k = true) :
    e.index < tracked.world.spawned := by
  rcases hreport with hadded | hchanged | hremoved
  · exact World.lt_spawned_of_get ((h.cells e k).present (.inl hadded))
  · exact World.lt_spawned_of_get ((h.cells e k).present (.inr hchanged))
  · exact h.spawned e k hremoved

/-- What is collected in the scratch buffers, on top of what they hold. -/
structure Collected (adapters : List (ComponentAdapter ε κ V)) (tracked : TrackedWorld κ V)
    (map : EntityMap) (before after : ExtractScratch) : Prop where
  creates : ∀ e, e ∈ after.createEntities
    ↔ (∃ adapter ∈ adapters, tracked.added e adapter.typeId = true) ∨ e ∈ before.createEntities
  createsNodup : before.createEntities.Nodup → after.createEntities.Nodup
  updates : ∀ e, e ∈ after.updateEntities
    ↔ (∃ adapter ∈ adapters, tracked.changed e adapter.typeId = true) ∨ e ∈ before.updateEntities
  updatesNodup : before.updateEntities.Nodup → after.updateEntities.Nodup
  components : ∀ e, after.updateComponents e = before.updateComponents e
    ++ (adapters.filter fun adapter => tracked.changed e adapter.typeId).map
      ComponentAdapter.componentId
  destroys : ∀ id, id ∈ after.destroys
    ↔ (∃ adapter ∈ adapters, ∃ e, tracked.removed e adapter.typeId = true ∧ map.toId e = some id)
      ∨ id ∈ before.destroys

/-- One adapter. -/
theorem collected_one {before : World κ V} (h : tracked.Tracks before)
    (adapter : ComponentAdapter ε κ V) (scratch : ExtractScratch) :
    Collected [adapter] tracked map scratch (adapter.collect tracked map scratch) := by
  have hadded (e : Entity) : e ∈ adapter.addedEntities tracked
      ↔ tracked.added e adapter.typeId = true :=
    mem_reported fun _ _ hreport => h.index_lt (.inl hreport)
  have hchanged (e : Entity) :
      e ∈ adapter.changedEntities tracked ↔ tracked.changed e adapter.typeId = true :=
    mem_reported fun _ _ hreport => h.index_lt (.inr (.inl hreport))
  have hremoved (e : Entity) :
      e ∈ adapter.removedEntities tracked ↔ tracked.removed e adapter.typeId = true :=
    mem_reported fun _ _ hreport => h.index_lt (.inr (.inr hreport))
  have hnodup : (adapter.changedEntities tracked).Nodup := reported_nodup _
  unfold ComponentAdapter.collect
  dsimp only
  rw [fold_add_create, fold_add_update adapter.componentId hnodup, fold_add_destroy]
  refine ⟨fun e => ?_, nodup_fold_insert, fun e => ?_, nodup_fold_insert, fun e => ?_, fun id => ?_⟩
  · dsimp only
    rw [mem_fold_insert, hadded]
    simp only [List.mem_singleton, exists_eq_left]
  · dsimp only
    rw [mem_fold_insert, hchanged]
    simp only [List.mem_singleton, exists_eq_left]
  · dsimp only
    by_cases hreport : tracked.changed e adapter.typeId = true
    · rw [if_pos ((hchanged e).mpr hreport), List.filter_singleton, hreport]
      rfl
    · rw [if_neg fun hmem => hreport ((hchanged e).mp hmem), List.filter_singleton,
        Bool.eq_false_of_not_eq_true hreport]
      exact (List.append_nil _).symm
  · dsimp only
    rw [mem_fold_insert, List.mem_filterMap]
    simp only [List.mem_singleton, exists_eq_left]
    exact or_congr_left (exists_congr fun e => and_congr_left fun _ => hremoved e)

theorem Collected.trans {adapters more : List (ComponentAdapter ε κ V)}
    {before next after : ExtractScratch} (h : Collected adapters tracked map before next)
    (h' : Collected more tracked map next after) :
    Collected (adapters ++ more) tracked map before after := by
  refine ⟨fun e => ?_, fun hnodup => h'.createsNodup (h.createsNodup hnodup), fun e => ?_,
    fun hnodup => h'.updatesNodup (h.updatesNodup hnodup), fun e => ?_, fun id => ?_⟩
  · rw [h'.creates, h.creates]
    simp only [List.mem_append, or_and_right, exists_or]
    rw [or_assoc, or_left_comm]
  · rw [h'.updates, h.updates]
    simp only [List.mem_append, or_and_right, exists_or]
    rw [or_assoc, or_left_comm]
  · rw [h'.components, h.components, List.filter_append, List.map_append, List.append_assoc]
  · rw [h'.destroys, h.destroys]
    simp only [List.mem_append, or_and_right, exists_or]
    rw [or_assoc, or_left_comm]

/-- The first loop over all adapters. -/
theorem collected_all {before : World κ V} (h : tracked.Tracks before)
    (adapters : List (ComponentAdapter ε κ V)) (scratch : ExtractScratch) :
    Collected adapters tracked map scratch
      (adapters.foldl (ComponentAdapter.collect tracked map) scratch) := by
  induction adapters generalizing scratch with
  | nil =>
      refine ⟨fun e => ?_, id, fun e => ?_, id, fun e => (List.append_nil _).symm, fun id => ?_⟩
      all_goals
        refine (or_iff_right fun hexists => ?_).symm
        obtain ⟨adapter, hadapter, _⟩ := hexists
        cases hadapter
  | cons adapter adapters ih => exact (collected_one h adapter scratch).trans (ih _)

end Collect

end Sdec.Bevy
