import Sdec.Bevy.Extract
import Sdec.Bevy.Mirror

/-!
# What is extracted

The lists that `extract_changes` returns, as they follow from what the world reports. Read
`extracted` first: an entity with an added component is created, one with a removed component is
destroyed if it has an id, and one with changed components only is updated.
-/

namespace Sdec.Bevy

open Rust

variable {ε κ V : Type}

/-! ## Numbers -/

namespace EntityMap

variable {map : EntityMap} {e : Entity}

/-- `map'` has the ids of `map` and new ones. -/
structure Extends (map map' : EntityMap) : Prop where
  inverse : map'.Inverse
  bounded : map'.Bounded
  kept : ∀ e id, map.toId e = some id → map'.toId e = some id

theorem next_id_le (h : map.nextId.toNat < 0xFFFFFFFF) :
    map.freshId.toNat ≤ map.nextId.toNat + 1 := by
  have hne : map.nextId ≠ 0xFFFFFFFF := fun heq => by
    rw [heq] at h
    exact Nat.lt_irrefl _ h
  have hsucc : (map.nextId + 1).toNat = map.nextId.toNat + 1 := by
    rw [UInt32.toNat_add, UInt32.toNat_one]
    omega
  unfold freshId saturatingSucc
  rw [if_neg hne]
  show (if map.nextId + 1 ≤ 1 then (1 : UInt32) else map.nextId + 1).toNat ≤ _
  by_cases hle : map.nextId + 1 ≤ 1
  · rw [if_pos hle, UInt32.toNat_one]
    omega
  · rw [if_neg hle, hsucc]

/-- A new entity is given a new id. -/
theorem extends_entity_id (hinverse : map.Inverse) (hbounded : map.Bounded)
    (hroom : map.toId e = none → map.nextId.toNat < 0xFFFFFFFF) :
    map.Extends (map.entityId e).2 ∧ (map.entityId e).2.toId e = some (map.entityId e).1
      ∧ (∀ other, other ≠ e → (map.entityId e).2.toId other = map.toId other)
      ∧ (map.entityId e).2.nextId.toNat
        ≤ map.nextId.toNat + if (map.toId e).isNone then 1 else 0 := by
  cases hid : map.toId e with
  | some id =>
      rw [entity_id_of_some hid]
      exact ⟨⟨hinverse, hbounded, fun _ _ h => h⟩, hid, fun _ _ => rfl, Nat.le_refl _⟩
  | none =>
      have hne : map.nextId ≠ 0xFFFFFFFF := fun heq => by
        have := hroom hid
        rw [heq] at this
        exact Nat.lt_irrefl _ this
      have hkeeps := (keeps_bijection_iff hinverse hbounded (.entityId e)).mpr fun _ => .inl hne
      have hnext := next_id_le (hroom hid)
      refine ⟨⟨hkeeps.1, bounded_step hbounded (.entityId e), fun other id hother => ?_⟩, ?_,
        fun other hother => ?_, ?_⟩
      all_goals rw [entity_id_of_none hid]
      · have hother' : other ≠ e := fun heq => by
          rw [heq, hid] at hother
          cases hother
        show Function.update map.toId e _ other = _
        rwa [Function.update_of_ne hother']
      · exact Function.update_self _ _ _
      · exact Function.update_of_ne hother _ _
      · exact hnext

theorem Extends.refl (hinverse : map.Inverse) (hbounded : map.Bounded) : map.Extends map :=
  ⟨hinverse, hbounded, fun _ _ h => h⟩

theorem Extends.trans {map' map'' : EntityMap} (h : map.Extends map') (h' : map'.Extends map'') :
    map.Extends map'' :=
  ⟨h'.inverse, h'.bounded, fun e id hid => h'.kept e id (h.kept e id hid)⟩

/-- Entities of one id are the same. -/
theorem Inverse.eq_of_id_eq (h : map.Inverse) {other : Entity} {id : EntityId}
    (he : map.toId e = some id) (hother : map.toId other = some id) : e = other := by
  rw [h] at he hother
  exact Option.some.inj (he.symm.trans hother)

/-- The entities that need a new id. -/
def unnumbered (map : EntityMap) (es : List Entity) : Nat :=
  (es.filter fun e => (map.toId e).isNone).length

theorem unnumbered_cons (e : Entity) (es : List Entity) :
    map.unnumbered (e :: es) = (if (map.toId e).isNone then 1 else 0) + map.unnumbered es := by
  unfold unnumbered
  by_cases hid : (map.toId e).isNone
  · rw [List.filter_cons_of_pos (by exact hid), if_pos hid, List.length_cons, Nat.add_comm]
  · rw [List.filter_cons_of_neg (by exact hid), if_neg hid, Nat.zero_add]

theorem unnumbered_congr {map' : EntityMap} {es : List Entity}
    (h : ∀ e ∈ es, map'.toId e = map.toId e) : map'.unnumbered es = map.unnumbered es := by
  unfold unnumbered
  refine congrArg List.length (List.filter_congr fun e he => ?_)
  rw [h e he]

end EntityMap

variable {bevy : BevySchema ε κ V} {world : World κ V} {map : EntityMap}

/-! ## Creates -/

/-- The second loop, over entities that the counter has room for. -/
theorem extract_creates_spec {es : List Entity} (hnodup : es.Nodup) (hinverse : map.Inverse)
    (hbounded : map.Bounded) (hroom : map.nextId.toNat + map.unnumbered es ≤ 0xFFFFFFFF) :
    map.Extends (bevy.extractCreates world es map).2
      ∧ (∀ e ∈ es, (bevy.extractCreates world es map).2.toId e ≠ none)
      ∧ (∀ c, c ∈ (bevy.extractCreates world es map).1 ↔ ∃ e ∈ es, bevy.snapshotEntity world e ≠ []
        ∧ (bevy.extractCreates world es map).2.toId e = some c.id
        ∧ c.components = bevy.snapshotEntity world e)
      ∧ (bevy.extractCreates world es map).1.Pairwise fun a b => a.id ≠ b.id := by
  induction es generalizing map with
  | nil =>
      refine ⟨.refl hinverse hbounded, fun e he => absurd he List.not_mem_nil, fun c => ?_,
        List.Pairwise.nil⟩
      refine iff_of_false List.not_mem_nil fun h => ?_
      obtain ⟨e, he, _⟩ := h
      cases he
  | cons e rest ih =>
      rw [List.nodup_cons] at hnodup
      rw [EntityMap.unnumbered_cons] at hroom
      have hfits : map.toId e = none → map.nextId.toNat < 0xFFFFFFFF := by
        intro hnone
        rw [hnone] at hroom
        simp only [Option.isNone_none, if_true] at hroom
        omega
      obtain ⟨hextends, hnumber, hothers, hnext⟩ :=
        EntityMap.extends_entity_id hinverse hbounded hfits
      obtain ⟨numbered, hnumbered⟩ : ∃ numbered, numbered = map.entityId e := ⟨_, rfl⟩
      rw [← hnumbered] at hextends hnumber hothers hnext
      -- the rest needs the ids that it needed before
      have hsame : numbered.2.unnumbered rest = map.unnumbered rest :=
        EntityMap.unnumbered_congr fun other hother =>
          hothers other fun heq => hnodup.1 (heq ▸ hother)
      obtain ⟨hrest, hknown, hmem, hdistinct⟩ := ih hnodup.2 hextends.inverse hextends.bounded
        (by rw [hsame]; omega)
      have he : (bevy.extractCreates world rest numbered.2).2.toId e = some numbered.1 :=
        hrest.kept e _ hnumber
      have hresult : (bevy.extractCreates world (e :: rest) map)
          = if (bevy.snapshotEntity world e).isEmpty then bevy.extractCreates world rest numbered.2
            else (⟨numbered.1, bevy.snapshotEntity world e⟩
              :: (bevy.extractCreates world rest numbered.2).1,
              (bevy.extractCreates world rest numbered.2).2) := by
        rw [hnumbered]
        rfl
      have hmap : (bevy.extractCreates world (e :: rest) map).2
          = (bevy.extractCreates world rest numbered.2).2 := by
        rw [hresult]
        split <;> rfl
      rw [hmap]
      refine ⟨hextends.trans hrest, fun other hother => ?_, fun c => ?_, ?_⟩
      · rcases List.mem_cons.mp hother with rfl | hother
        · rw [he]
          exact Option.some_ne_none _
        · exact hknown other hother
      · rw [hresult, List.exists_mem_cons_iff, ← hmem, he]
        by_cases hempty : (bevy.snapshotEntity world e).isEmpty
        · rw [if_pos hempty]
          refine (or_iff_right fun h => h.1 (List.isEmpty_iff.mp hempty)).symm
        · rw [if_neg hempty, List.mem_cons]
          refine or_congr_left ⟨fun hc => ?_, fun hc => ?_⟩
          · rw [hc]
            exact ⟨fun hnil => hempty (List.isEmpty_iff.mpr hnil), rfl, rfl⟩
          · obtain ⟨_, hid, hcomponents⟩ := hc
            cases c
            cases hid
            cases hcomponents
            rfl
      · rw [hresult]
        by_cases hempty : (bevy.snapshotEntity world e).isEmpty
        · rw [if_pos hempty]
          exact hdistinct
        · rw [if_neg hempty]
          refine List.pairwise_cons.mpr ⟨fun c hc heq => ?_, hdistinct⟩
          obtain ⟨other, hother, _, hid, _⟩ := (hmem c).mp hc
          rw [← heq] at hid
          exact hnodup.1 (hrest.inverse.eq_of_id_eq he hid ▸ hother)

/-! ## Updates -/

theorem update_components_eq {e : Entity} {adapters : List (ComponentAdapter ε κ V)}
    (h : ∀ adapter ∈ adapters, adapter ∈ bevy.adapters) :
    bevy.updateComponents world e (adapters.map ComponentAdapter.componentId)
      = adapters.filterMap fun adapter => adapter.updateComponent world e := by
  unfold BevySchema.updateComponents
  rw [List.filterMap_map]
  refine List.filterMap_congr fun adapter hadapter => ?_
  show (bevy.adapterByComponent adapter.componentId).bind _ = _
  rw [BevySchema.adapter_by_component_eq_some.mpr ⟨h adapter hadapter, rfl⟩]
  rfl

/-- The third loop, over entities that have ids. -/
theorem extract_updates_spec {scratch : ExtractScratch} {es : List Entity} (hnodup : es.Nodup)
    (hinverse : map.Inverse) (hknown : ∀ e ∈ es, map.toId e ≠ none) :
    (bevy.extractUpdates world scratch es map).2 = map
      ∧ (∀ u, u ∈ (bevy.extractUpdates world scratch es map).1 ↔ ∃ e ∈ es,
        e ∉ scratch.createEntities
        ∧ bevy.updateComponents world e (scratch.updateComponents e) ≠ []
        ∧ map.toId e = some u.id
        ∧ u.components = bevy.updateComponents world e (scratch.updateComponents e))
      ∧ (bevy.extractUpdates world scratch es map).1.Pairwise fun a b => a.id ≠ b.id := by
  induction es with
  | nil =>
      refine ⟨rfl, fun u => iff_of_false List.not_mem_nil fun h => ?_, List.Pairwise.nil⟩
      obtain ⟨e, he, _⟩ := h
      cases he
  | cons e rest ih =>
      rw [List.nodup_cons] at hnodup
      rw [List.forall_mem_cons] at hknown
      obtain ⟨hmap, hmem, hdistinct⟩ := ih hnodup.2 hknown.2
      obtain ⟨id, hid⟩ := Option.ne_none_iff_exists'.mp hknown.1
      rw [BevySchema.extractUpdates]
      by_cases hcreated : e ∈ scratch.createEntities
      · rw [if_pos hcreated]
        refine ⟨hmap, fun u => ?_, hdistinct⟩
        rw [hmem, List.exists_mem_cons_iff]
        exact (or_iff_right fun h => h.1 hcreated).symm
      · rw [if_neg hcreated, EntityMap.entity_id_of_some hid]
        dsimp only
        by_cases hempty : (bevy.updateComponents world e (scratch.updateComponents e)).isEmpty
        · rw [if_pos hempty]
          refine ⟨hmap, fun u => ?_, hdistinct⟩
          rw [hmem, List.exists_mem_cons_iff]
          exact (or_iff_right fun h => h.2.1 (List.isEmpty_iff.mp hempty)).symm
        · rw [if_neg hempty]
          refine ⟨hmap, fun u => ?_, List.pairwise_cons.mpr ⟨fun u hu heq => ?_, hdistinct⟩⟩
          · rw [List.mem_cons, hmem, List.exists_mem_cons_iff, hid]
            refine or_congr_left ⟨fun hu => ?_, fun hu => ?_⟩
            · rw [hu]
              exact ⟨hcreated, fun hnil => hempty (List.isEmpty_iff.mpr hnil), rfl, rfl⟩
            · obtain ⟨_, _, hsame, hcomponents⟩ := hu
              cases u
              cases hsame
              cases hcomponents
              rfl
          · obtain ⟨other, hother, _, _, hotherId, _⟩ := (hmem u).mp hu
            rw [← heq] at hotherId
            exact hnodup.1 (hinverse.eq_of_id_eq hid hotherId ▸ hother)

/-! ## The lists -/

/-- The lists that are extracted of a tracked world, and the map of ids after it. -/
structure Extracted (bevy : BevySchema ε κ V) (tracked : TrackedWorld κ V) (map : EntityMap)
    (changes : BevyChangeSet) (map' : EntityMap) : Prop where
  extend : map.Extends map'
  numbered : ∀ e, bevy.Reports tracked.added e → map'.toId e ≠ none
  creates : ∀ c, c ∈ changes.creates ↔ ∃ e, bevy.Reports tracked.added e
    ∧ map'.toId e = some c.id ∧ c.components = bevy.snapshotEntity tracked.world e
  createsDistinct : changes.creates.Pairwise fun a b => a.id ≠ b.id
  destroys : ∀ id, id ∈ changes.destroys ↔ ∃ e, bevy.Reports tracked.removed e
    ∧ map.toId e = some id
  updates : ∀ u, u ∈ changes.updates ↔ ∃ e, bevy.Reports tracked.changed e
    ∧ ¬ bevy.Reports tracked.added e ∧ map'.toId e = some u.id
    ∧ u.components
      = (bevy.adapters.filter fun adapter => tracked.changed e adapter.typeId).filterMap
      fun adapter => adapter.updateComponent tracked.world e
  updatesDistinct : changes.updates.Pairwise fun a b => a.id ≠ b.id

section Ids

variable {tracked : TrackedWorld κ V} {changes : BevyChangeSet} {map' : EntityMap} {e : Entity}
  {id : EntityId} (h : Extracted bevy tracked map changes map')

include h

/-- An entity with an id is destroyed if it lost a component. -/
theorem Extracted.destroyed_iff (hinverse : map.Inverse) (hid : map.toId e = some id) :
    id ∈ changes.destroys ↔ bevy.Reports tracked.removed e := by
  rw [h.destroys]
  constructor
  · intro hdestroyed
    obtain ⟨other, hremoved, hother⟩ := hdestroyed
    rwa [hinverse.eq_of_id_eq hid hother]
  · exact fun hremoved => ⟨e, hremoved, hid⟩

/-- It is created if it was given a component. -/
theorem Extracted.created_iff (hid : map'.toId e = some id) :
    (∃ c ∈ changes.creates, c.id = id) ↔ bevy.Reports tracked.added e := by
  constructor
  · intro hcreated
    obtain ⟨c, hc, rfl⟩ := hcreated
    obtain ⟨other, hadded, hother, _⟩ := (h.creates c).mp hc
    rwa [h.extend.inverse.eq_of_id_eq hid hother]
  · exact fun hadded => ⟨⟨id, bevy.snapshotEntity tracked.world e⟩,
      (h.creates _).mpr ⟨e, hadded, hid, rfl⟩, rfl⟩

/-- It is updated if components of it were changed only. -/
theorem Extracted.updated_iff (hid : map'.toId e = some id) :
    (∃ u ∈ changes.updates, u.id = id)
      ↔ bevy.Reports tracked.changed e ∧ ¬ bevy.Reports tracked.added e := by
  constructor
  · intro hupdated
    obtain ⟨u, hu, rfl⟩ := hupdated
    obtain ⟨other, hchanged, hadded, hother, _⟩ := (h.updates u).mp hu
    rw [h.extend.inverse.eq_of_id_eq hid hother]
    exact ⟨hchanged, hadded⟩
  · exact fun hboth => ⟨⟨id, _⟩, (h.updates _).mpr ⟨e, hboth.1, hboth.2, hid, rfl⟩, rfl⟩

end Ids

theorem snapshot_ne_nil_iff {e : Entity} :
    bevy.snapshotEntity world e ≠ [] ↔ ∃ adapter ∈ bevy.adapters,
      world.get e adapter.typeId ≠ none := by
  unfold BevySchema.snapshotEntity ComponentAdapter.snapshotComponent
  rw [ne_eq, List.filterMap_eq_nil_iff]
  simp only [Option.map_eq_none_iff, not_forall, exists_prop, ne_eq]

section Reported

variable {tracked : TrackedWorld κ V} {before : World κ V} {scratch : ExtractScratch} {e : Entity}

/-- An entity that was given a component has one to create. -/
theorem TrackedWorld.Tracks.snapshot_ne_nil (h : tracked.Tracks before)
    (hadded : bevy.Reports tracked.added e) : bevy.snapshotEntity tracked.world e ≠ [] := by
  obtain ⟨adapter, hadapter, hreport⟩ := hadded
  exact snapshot_ne_nil_iff.mpr ⟨adapter, hadapter, (h.cells e _).present (.inl hreport)⟩

/-- An entity with a changed component has one to update. -/
theorem TrackedWorld.Tracks.updates_ne_nil (h : tracked.Tracks before)
    (hchanged : bevy.Reports tracked.changed e) :
    (bevy.adapters.filter fun adapter => tracked.changed e adapter.typeId).filterMap
      (fun adapter => adapter.updateComponent tracked.world e) ≠ [] := by
  obtain ⟨adapter, hadapter, hreport⟩ := hchanged
  rw [ne_eq, List.filterMap_eq_nil_iff]
  intro hnone
  have hgone := hnone adapter (List.mem_filter.mpr ⟨hadapter, hreport⟩)
  exact (h.cells e _).present (.inr hreport) (Option.map_eq_none_iff.mp hgone)

variable (h : Collected bevy.adapters tracked map .default scratch)

include h

theorem Collected.mem_creates : e ∈ scratch.createEntities ↔ bevy.Reports tracked.added e :=
  (h.creates e).trans (or_iff_left List.not_mem_nil)

theorem Collected.mem_updates : e ∈ scratch.updateEntities ↔ bevy.Reports tracked.changed e :=
  (h.updates e).trans (or_iff_left List.not_mem_nil)

theorem Collected.mem_destroys {id : EntityId} : id ∈ scratch.destroys
    ↔ ∃ e, bevy.Reports tracked.removed e ∧ map.toId e = some id := by
  rw [h.destroys]
  refine (or_iff_left List.not_mem_nil).trans ?_
  constructor
  · intro hid
    obtain ⟨adapter, hadapter, e, hreport, hid⟩ := hid
    exact ⟨e, ⟨adapter, hadapter, hreport⟩, hid⟩
  · intro hid
    obtain ⟨e, ⟨adapter, hadapter, hreport⟩, hid⟩ := hid
    exact ⟨adapter, hadapter, e, hreport, hid⟩

/-- The components that the third loop looks up again are the changed ones. -/
theorem Collected.update_components :
    bevy.updateComponents world e (scratch.updateComponents e)
      = (bevy.adapters.filter fun adapter => tracked.changed e adapter.typeId).filterMap
        fun adapter => adapter.updateComponent world e := by
  rw [h.components]
  exact update_components_eq fun adapter hadapter => List.mem_of_mem_filter hadapter

end Reported

/-- What `extract_changes` returns. -/
theorem extracted {tracked : TrackedWorld κ V} {before : World κ V} (h : tracked.Tracks before)
    (hinverse : map.Inverse) (hbounded : map.Bounded)
    (hknown : ∀ e, bevy.Reports tracked.changed e → ¬ bevy.Reports tracked.added e →
      map.toId e ≠ none)
    (hroom : map.nextId.toNat + map.unnumbered (bevy.collect tracked map).createEntities
      ≤ 0xFFFFFFFF) (orders : ExtractOrders) :
    Extracted bevy tracked map (bevy.extractChanges orders tracked map).1
      (bevy.extractChanges orders tracked map).2 := by
  have hcollected : Collected bevy.adapters tracked map .default (bevy.collect tracked map) :=
    collected_all h bevy.adapters _
  obtain ⟨scratch, hscratch⟩ : ∃ scratch, scratch = bevy.collect tracked map := ⟨_, rfl⟩
  rw [← hscratch] at hcollected hroom
  have hcreatePerm := orders.creates.perm scratch.createEntities
  have hupdatePerm := orders.updates.perm scratch.updateEntities
  have hdestroyPerm := orders.destroys.perm scratch.destroys
  have hunnumbered : map.unnumbered (orders.creates.order scratch.createEntities)
      = map.unnumbered scratch.createEntities := (hcreatePerm.filter _).length_eq
  obtain ⟨hextends, hnumbered, hcreates, hcreatesDistinct⟩ := @extract_creates_spec _ _ _ bevy
    tracked.world map _
      (hcreatePerm.nodup_iff.mpr (hcollected.createsNodup List.nodup_nil)) hinverse
    hbounded (by rw [hunnumbered]; exact hroom)
  obtain ⟨creates, hcreatesEq⟩ : ∃ creates, creates = bevy.extractCreates tracked.world
    (orders.creates.order scratch.createEntities) map := ⟨_, rfl⟩
  rw [← hcreatesEq] at hextends hnumbered hcreates hcreatesDistinct
  -- every entity of the third loop has an id by then
  have hupdateKnown :
      ∀ e ∈ orders.updates.order scratch.updateEntities, creates.2.toId e ≠ none := by
    intro e he
    by_cases hadded : bevy.Reports tracked.added e
    · exact hnumbered e (hcreatePerm.mem_iff.mpr (hcollected.mem_creates.mpr hadded))
    · have hreported := hcollected.mem_updates.mp (hupdatePerm.mem_iff.mp he)
      obtain ⟨id, hid⟩ := Option.ne_none_iff_exists'.mp (hknown e hreported hadded)
      rw [hextends.kept e id hid]
      exact Option.some_ne_none id
  obtain ⟨hmap, hupdates, hupdatesDistinct⟩ :=
    @extract_updates_spec _ _ _ bevy tracked.world creates.2 scratch _
      (hupdatePerm.nodup_iff.mpr (hcollected.updatesNodup List.nodup_nil)) hextends.inverse
      hupdateKnown
  have hchanges : bevy.extractChanges orders tracked map
      = (⟨creates.1.insertionSort fun a b => a.id.raw ≤ b.id.raw,
        (orders.destroys.order scratch.destroys).insertionSort fun a b => a.raw ≤ b.raw,
        (bevy.extractUpdates tracked.world scratch (orders.updates.order scratch.updateEntities)
          creates.2).1.insertionSort fun a b => a.id.raw ≤ b.id.raw⟩, creates.2) := by
    unfold BevySchema.extractChanges
    dsimp only
    rw [← hscratch, ← hcreatesEq, hmap]
  have hsortedCreates := List.perm_insertionSort (fun a b : EntitySnapshot => a.id.raw ≤ b.id.raw)
    creates.1
  have hsortedUpdates := List.perm_insertionSort
    (fun a b : DeltaUpdateEntity => a.id.raw ≤ b.id.raw)
    (bevy.extractUpdates tracked.world scratch (orders.updates.order scratch.updateEntities)
      creates.2).1
  have hsortedDestroys := List.perm_insertionSort (fun a b : EntityId => a.raw ≤ b.raw)
    (orders.destroys.order scratch.destroys)
  rw [hchanges]
  refine ⟨hextends, fun e he => ?_, fun c => ?_, ?_, fun id => ?_, fun u => ?_, ?_⟩
  · exact hnumbered e (hcreatePerm.mem_iff.mpr (hcollected.mem_creates.mpr he))
  · show c ∈ creates.1.insertionSort _ ↔ _
    rw [hsortedCreates.mem_iff, hcreates]
    refine exists_congr fun e => ?_
    rw [hcreatePerm.mem_iff, hcollected.mem_creates]
    exact and_congr_right fun hadded => and_iff_right (h.snapshot_ne_nil hadded)
  · exact hcreatesDistinct.perm hsortedCreates.symm fun hne => hne.symm
  · show id ∈ (orders.destroys.order scratch.destroys).insertionSort _ ↔ _
    rw [hsortedDestroys.mem_iff, hdestroyPerm.mem_iff, hcollected.mem_destroys]
  · show u ∈ (bevy.extractUpdates tracked.world scratch _ creates.2).1.insertionSort _ ↔ _
    rw [hsortedUpdates.mem_iff, hupdates]
    refine exists_congr fun e => ?_
    rw [hupdatePerm.mem_iff, hcollected.mem_updates, hcollected.mem_creates,
      hcollected.update_components]
    exact and_congr_right fun hchanged => and_congr_right fun _ =>
      and_iff_right (h.updates_ne_nil hchanged)
  · exact hupdatesDistinct.perm hsortedUpdates.symm fun hne => hne.symm

end Sdec.Bevy
