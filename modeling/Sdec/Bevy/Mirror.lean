import Sdec.Bevy.Apply
import Sdec.Diff.MapUpdate
import Sdec.Safety.Limits

/-!
# Worlds that mirror a snapshot

What it means that a world and an entity map mirror the entities of a snapshot, and that each pass
over a delta keeps it. Read `apply_changes_simulates` first: where the codec applies a delta to a
snapshot, the Bevy adapter applies it to every world that mirrors the snapshot, and the world
mirrors the result.
-/

namespace Sdec.Bevy

open Rust Codec Sorted

variable {ε κ V : Type}

/-- What a component type must do to be replicated: a component is made of fields in their ranges
and reads back as them, and a field that is in its range can be changed, which changes no other. -/
structure ComponentAdapter.Consistent (adapter : ComponentAdapter ε κ V) : Prop where
  fromFields : ∀ fields, List.Forall₂ (fun (field : FieldDef) value => field.codec.Contains value)
      adapter.schemaDef.fields fields →
    ∃ component, adapter.fromFields fields = .ok component ∧ adapter.readFields component = fields
  applyField : ∀ idx value component, adapter.schemaDef.HoldsField (idx, value) →
    ∃ component', adapter.applyField idx value component = .ok () component'
      ∧ adapter.readFields component' = (adapter.readFields component).set idx value

/-- The replicated components of an entity read back as those of a snapshot. -/
def Reads (bevy : BevySchema ε κ V) (world : World κ V) (e : Entity)
    (components : List ComponentSnapshot) : Prop :=
  (bevy.snapshotEntity world e).Perm components

/-- The map is a bijection between the ids of a snapshot and live entities whose replicated
components read back as those of the snapshot. -/
structure Mirrors (bevy : BevySchema ε κ V) (snapshot : EntitySnapshot → Prop)
    (replica : Replica κ V) : Prop where
  inverse : replica.entities.Inverse
  mapped : ∀ id, (∃ b, snapshot b ∧ b.id = id) ↔ ∃ e, replica.entities.toEntity id = some e
  live : ∀ b e, snapshot b → replica.entities.toEntity b.id = some e →
    replica.world.entities e ≠ none
  reads : ∀ b e, snapshot b → replica.entities.toEntity b.id = some e →
    Reads bevy replica.world e b.components

/-- The entity has a replicated component. -/
def Replicated (bevy : BevySchema ε κ V) (world : World κ V) (e : Entity) : Prop :=
  bevy.snapshotEntity world e ≠ []

/-- Every entity with a replicated component is mapped. -/
def Tidy (bevy : BevySchema ε κ V) (replica : Replica κ V) : Prop :=
  ∀ e, Replicated bevy replica.world e → ∃ id, replica.entities.toEntity id = some e

/-- An id is mapped to the same entity as before, with the same components. -/
def Replica.SameAt (before after : Replica κ V) (id : EntityId) : Prop :=
  after.entities.toEntity id = before.entities.toEntity id
    ∧ ∀ e, before.entities.toEntity id = some e → after.world.entities e = before.world.entities e

theorem Replica.SameAt.refl (replica : Replica κ V) (id : EntityId) : replica.SameAt replica id :=
  ⟨rfl, fun _ _ => rfl⟩

theorem Replica.SameAt.trans {before next after : Replica κ V} {id : EntityId}
    (h : before.SameAt next id) (h' : next.SameAt after id) : before.SameAt after id :=
  ⟨h'.1.trans h.1, fun e he => (h'.2 e (h.1.trans he)).trans (h.2 e he)⟩

variable {bevy : BevySchema ε κ V} {world : World κ V} {e : Entity}
  {components components' : List ComponentSnapshot}

/-! ## Reading components back -/

theorem mem_snapshot_entity {c : ComponentSnapshot} :
    c ∈ bevy.snapshotEntity world e ↔ ∃ adapter ∈ bevy.adapters, ∃ component,
      world.get e adapter.typeId = some component
        ∧ c = ⟨adapter.componentId, adapter.readFields component⟩ := by
  unfold BevySchema.snapshotEntity ComponentAdapter.snapshotComponent
  rw [List.mem_filterMap]
  refine exists_congr fun adapter => and_congr_right fun _ => ?_
  rw [Option.map_eq_some_iff]
  exact exists_congr fun component => and_congr_right fun _ => eq_comm

/-- The components that are read back have different ids. -/
theorem snapshot_entity_nodup : ((bevy.snapshotEntity world e).map ComponentSnapshot.id).Nodup := by
  refine List.Nodup.sublist ?_ bevy.ids
  unfold BevySchema.snapshotEntity
  induction bevy.adapters with
  | nil => exact List.Sublist.slnil
  | cons adapter adapters ih =>
      rw [List.filterMap_cons]
      unfold ComponentAdapter.snapshotComponent at ih ⊢
      cases world.get e adapter.typeId with
      | none => exact ih.cons _
      | some component => exact ih.cons_cons _

/-- Components are read back when their ids differ and they are those that the adapters read. -/
theorem reads_iff :
    Reads bevy world e components ↔ (components.map ComponentSnapshot.id).Nodup
      ∧ ∀ c, c ∈ components ↔ ∃ adapter ∈ bevy.adapters, ∃ component,
        world.get e adapter.typeId = some component
          ∧ c = ⟨adapter.componentId, adapter.readFields component⟩ := by
  unfold Reads
  constructor
  · intro h
    refine ⟨(h.map _).nodup_iff.mp snapshot_entity_nodup, fun c => ?_⟩
    rw [← h.mem_iff, mem_snapshot_entity]
  · intro h
    refine (List.perm_ext_iff_of_nodup (List.Nodup.of_map _ snapshot_entity_nodup)
      (List.Nodup.of_map _ h.1)).mpr fun c => ?_
    rw [mem_snapshot_entity, h.2]

/-- What is read back of an entity depends on its components only. -/
theorem Reads.congr {after : World κ V} (h : Reads bevy world e components)
    (hsame : after.entities e = world.entities e) : Reads bevy after e components := by
  have hget : ∀ k, after.get e k = world.get e k := fun k => by rw [World.get, hsame, World.get]
  obtain ⟨hnodup, hmem⟩ := reads_iff.mp h
  refine reads_iff.mpr ⟨hnodup, fun c => ?_⟩
  rw [hmem]
  refine exists_congr fun adapter => and_congr_right fun _ => exists_congr fun component => ?_
  rw [hget]

/-- What is replicated of an entity depends on its components only. -/
theorem snapshot_entity_congr {after : World κ V} (hsame : after.entities e = world.entities e) :
    bevy.snapshotEntity after e = bevy.snapshotEntity world e := by
  unfold BevySchema.snapshotEntity ComponentAdapter.snapshotComponent World.get
  rw [hsame]

variable [DecidableEq κ]

/-- Writing one component changes what is read back of it. -/
theorem Reads.set {adapter : ComponentAdapter ε κ V} {component : V}
    (h : Reads bevy world e components) (hlive : world.entities e ≠ none)
    (hadapter : adapter ∈ bevy.adapters) (hnodup : (components'.map ComponentSnapshot.id).Nodup)
    (hmem : ∀ c, c ∈ components' ↔ c = ⟨adapter.componentId, adapter.readFields component⟩
      ∨ c ∈ components ∧ c.id ≠ adapter.componentId) :
    Reads bevy (world.set e adapter.typeId component) e components' := by
  refine reads_iff.mpr ⟨hnodup, fun c => ?_⟩
  rw [hmem, (reads_iff.mp h).2]
  constructor
  · intro hc
    rcases hc with rfl | ⟨⟨other, hother, value, hget, rfl⟩, hne⟩
    · refine ⟨adapter, hadapter, component, ?_, rfl⟩
      rw [World.get_set hlive, if_pos ⟨rfl, rfl⟩]
    · refine ⟨other, hother, value, ?_, rfl⟩
      rw [World.get_set hlive, if_neg, hget]
      intro hsame
      exact hne (congrArg ComponentAdapter.componentId
        (BevySchema.eq_of_type_eq hother hadapter hsame.2))
  · intro hc
    obtain ⟨other, hother, value, hget, rfl⟩ := hc
    rw [World.get_set hlive] at hget
    by_cases htype : other.typeId = adapter.typeId
    · obtain rfl := BevySchema.eq_of_type_eq hother hadapter htype
      rw [if_pos ⟨rfl, rfl⟩] at hget
      cases hget
      exact .inl rfl
    · rw [if_neg fun hsame => htype hsame.2] at hget
      refine .inr ⟨⟨other, hother, value, hget, rfl⟩, fun hid => htype ?_⟩
      rw [BevySchema.eq_of_component_id_eq hother hadapter hid]

/-! ## Destroys -/

variable {snapshot : EntitySnapshot → Prop} {replica : Replica κ V}

omit [DecidableEq κ] in
theorem Mirrors.congr {other : EntitySnapshot → Prop} (h : Mirrors bevy snapshot replica)
    (hsame : ∀ b, snapshot b ↔ other b) : Mirrors bevy other replica := by
  have heq : snapshot = other := funext fun b => propext (hsame b)
  rwa [← heq]

omit [DecidableEq κ] in
/-- A mapped entity is alive. -/
theorem Mirrors.live_of_mapped (h : Mirrors bevy snapshot replica) {id : EntityId}
    (hmapped : replica.entities.toEntity id = some e) : replica.world.entities e ≠ none := by
  obtain ⟨b, hb, rfl⟩ := (h.mapped id).mpr ⟨e, hmapped⟩
  exact h.live b e hb hmapped

omit [DecidableEq κ] in
/-- Destroying an id takes it out of the mirrored snapshot and leaves the other entities alone. -/
theorem Mirrors.destroy (h : Mirrors bevy snapshot replica) (d : EntityId) :
    Mirrors bevy (fun b => snapshot b ∧ b.id ≠ d) (replica.destroy d)
      ∧ ∀ id, id ≠ d → replica.SameAt (replica.destroy d) id := by
  unfold Replica.destroy EntityMap.entity
  cases hd : replica.entities.toEntity d with
  | none =>
      refine ⟨h.congr fun b => ⟨fun hb => ⟨hb, fun hid => ?_⟩, And.left⟩,
        fun id _ => Replica.SameAt.refl replica id⟩
      obtain ⟨e, he⟩ := (h.mapped d).mp ⟨b, hb, hid⟩
      rw [hd] at he
      cases he
  | some entity =>
      have hsame : ∀ id, id ≠ d → replica.SameAt
          ⟨replica.world.despawn entity, replica.entities.unregister d⟩ id := by
        intro id hid
        refine ⟨?_, fun e he => World.despawn_of_ne fun heq => hid ?_⟩
        · rw [EntityMap.unregister_of_some hd]
          exact Function.update_of_ne hid _ _
        · rw [heq, ← h.inverse] at he
          rw [← h.inverse, he] at hd
          exact Option.some.inj hd
      refine ⟨⟨EntityMap.inverse_unregister h.inverse, fun id => ?_, fun b e hb he => ?_,
        fun b e hb he => ?_⟩, hsame⟩
      · by_cases hid : id = d
        · refine iff_of_false (fun hb => ?_) fun he => ?_
          · obtain ⟨b, hb, heq⟩ := hb
            exact hb.2 (heq.trans hid)
          · obtain ⟨e, he⟩ := he
            rw [EntityMap.unregister_of_some hd, hid] at he
            dsimp only at he
            rw [Function.update_self] at he
            cases he
        · rw [(hsame id hid).1, ← h.mapped]
          refine exists_congr fun b => ⟨fun hb => ⟨hb.1.1, hb.2⟩, fun hb => ⟨⟨hb.1, ?_⟩, hb.2⟩⟩
          rw [hb.2]
          exact hid
      · have hold := (hsame b.id hb.2).1.symm.trans he
        rw [(hsame b.id hb.2).2 e hold]
        exact h.live b e hb.1 hold
      · have hold := (hsame b.id hb.2).1.symm.trans he
        exact (h.reads b e hb.1 hold).congr ((hsame b.id hb.2).2 e hold)

omit [DecidableEq κ] in
/-- The entity of a destroyed id is despawned. -/
theorem Tidy.destroy (h : Tidy bevy replica) (d : EntityId) : Tidy bevy (replica.destroy d) := by
  unfold Replica.destroy EntityMap.entity
  cases hd : replica.entities.toEntity d with
  | none => exact h
  | some entity =>
      intro e he
      have hne : e ≠ entity := by
        intro heq
        refine he (List.filterMap_eq_nil_iff.mpr fun adapter _ => ?_)
        show (World.get _ _ _).map _ = none
        rw [World.get, heq]
        show ((Function.update replica.world.entities entity none entity).bind _).map _ = none
        rw [Function.update_self]
        rfl
      have hbefore : Replicated bevy replica.world e := by
        unfold Replicated at he ⊢
        rwa [snapshot_entity_congr (World.despawn_of_ne hne)] at he
      obtain ⟨id, hid⟩ := h e hbefore
      refine ⟨id, ?_⟩
      rw [EntityMap.unregister_of_some hd]
      show Function.update replica.entities.toEntity d none id = some e
      rw [Function.update_of_ne, hid]
      intro heq
      rw [heq, hd] at hid
      exact hne (Option.some.inj hid).symm

omit [DecidableEq κ] in
theorem Tidy.destroys (h : Tidy bevy replica) (destroys : List EntityId) :
    Tidy bevy (destroys.foldl Replica.destroy replica) := by
  induction destroys generalizing replica with
  | nil => exact h
  | cons d destroys ih => exact ih (h.destroy d)

omit [DecidableEq κ] in
/-- The pass over the destroyed ids. -/
theorem Mirrors.destroys (h : Mirrors bevy snapshot replica) (destroys : List EntityId) :
    Mirrors bevy (fun b => snapshot b ∧ b.id ∉ destroys) (destroys.foldl Replica.destroy replica)
      ∧ ∀ id, id ∉ destroys → replica.SameAt (destroys.foldl Replica.destroy replica) id := by
  induction destroys generalizing snapshot replica with
  | nil =>
      refine ⟨h.congr fun b => ⟨fun hb => ⟨hb, List.not_mem_nil⟩, And.left⟩,
        fun id _ => Replica.SameAt.refl replica id⟩
  | cons d destroys ih =>
      obtain ⟨hmirror, hsame⟩ := h.destroy d
      obtain ⟨hrest, hsameRest⟩ := ih hmirror
      refine ⟨hrest.congr fun b => ?_, fun id hid => ?_⟩
      · rw [List.mem_cons, not_or, and_assoc]
      · rw [List.mem_cons, not_or] at hid
        exact (hsame id hid.1).trans (hsameRest id hid.2)

/-! ## Creates -/

/-- Components that the adapters can make: of different ids, each of an adapter whose fields they
have. -/
structure Creatable (bevy : BevySchema ε κ V) (components : List ComponentSnapshot) : Prop where
  distinct : (components.map ComponentSnapshot.id).Nodup
  known : ∀ c ∈ components, ∃ adapter ∈ bevy.adapters, adapter.componentId = c.id
    ∧ List.Forall₂ (fun (field : FieldDef) value => field.codec.Contains value)
      adapter.schemaDef.fields c.fields

/-- Components that the adapters make: of different ids, each read back as it is. -/
structure Makes (bevy : BevySchema ε κ V) (components : List ComponentSnapshot) : Prop where
  distinct : (components.map ComponentSnapshot.id).Nodup
  made : ∀ c ∈ components, ∃ adapter ∈ bevy.adapters, adapter.componentId = c.id
    ∧ ∃ component, adapter.fromFields c.fields = .ok component
    ∧ adapter.readFields component = c.fields

omit [DecidableEq κ] in
theorem Creatable.makes (h : Creatable bevy components)
    (hconsistent : ∀ adapter ∈ bevy.adapters, adapter.Consistent) : Makes bevy components := by
  refine ⟨h.distinct, fun c hc => ?_⟩
  obtain ⟨adapter, hadapter, hid, hfields⟩ := h.known c hc
  exact ⟨adapter, hadapter, hid, (hconsistent adapter hadapter).fromFields c.fields hfields⟩

theorem insert_component_fields_eq {adapter : ComponentAdapter ε κ V} {fields : List FieldValue}
    {component : V} (hadapter : adapter ∈ bevy.adapters)
    (hcomponent : adapter.fromFields fields = .ok component) (hlive : world.entities e ≠ none) :
    bevy.insertComponentFields e adapter.componentId fields world
      = .ok ⟨⟩ (world.set e adapter.typeId component) := by
  have hsome : ¬ (world.entities e).isNone := fun h => hlive (Option.isNone_iff_eq_none.mp h)
  unfold BevySchema.insertComponentFields ComponentAdapter.insertComponent
  rw [bind_apply, BevySchema.known_adapter_of_mem hadapter]
  show ((liftM (Outcome.mapErr ApplyError.component (adapter.fromFields fields)) >>= _ :
    Call (ApplyError ε) (World κ V) Unit)) world = _
  rw [bind_apply, hcomponent]
  show ((get >>= _ : Call (ApplyError ε) (World κ V) Unit)) world = _
  rw [bind_apply, get_apply]
  dsimp only
  rw [if_neg hsome]
  rfl

/-- The loop that inserts the components of a created entity. -/
theorem Reads.insert_components (h : Reads bevy world e components)
    (hlive : world.entities e ≠ none) (hmakes : Makes bevy (components ++ components')) :
    ∃ after, components'.forM (fun c => bevy.insertComponentFields e c.id c.fields) world
        = .ok ⟨⟩ after
      ∧ Reads bevy after e (components ++ components') ∧ after.entities e ≠ none
      ∧ ∀ other, other ≠ e → after.entities other = world.entities other := by
  induction components' generalizing world components with
  | nil => exact ⟨world, rfl, by rwa [List.append_nil], hlive, fun _ _ => rfl⟩
  | cons c rest ih =>
      obtain ⟨adapter, hadapter, hid, component, hcomponent, hread⟩ := hmakes.made c
        (List.mem_append_right _ List.mem_cons_self)
      have hc : c = ⟨adapter.componentId, adapter.readFields component⟩ := by rw [hid, hread]
      have hsplit : components ++ c :: rest = components ++ [c] ++ rest := List.append_cons _ _ _
      rw [hsplit] at hmakes ⊢
      have hnodup := hmakes.distinct
      rw [List.map_append] at hnodup
      have hfront := (List.nodup_append.mp hnodup).1
      have hset : Reads bevy (world.set e adapter.typeId component) e (components ++ [c]) := by
        refine h.set hlive hadapter hfront fun other => ?_
        rw [List.mem_append, List.mem_singleton, ← hc, or_comm]
        refine or_congr_right ⟨fun hother => ⟨hother, fun hsame => ?_⟩, And.left⟩
        rw [List.map_append, List.nodup_append] at hfront
        exact hfront.2.2 other.id (List.mem_map_of_mem hother) c.id
          (List.mem_map_of_mem (List.mem_singleton_self c)) (hsame.trans hid)
      obtain ⟨after, hrest, hreads, hafter, hothers⟩ := ih hset (World.set_ne_none hlive) hmakes
      refine ⟨after, ?_, hreads, hafter, fun other hne => ?_⟩
      · rw [List.forM, bind_apply, ← hid, insert_component_fields_eq hadapter hcomponent hlive]
        exact hrest
      · rw [hothers other hne, World.set_of_ne hne]

/-- A created entity is a new one with the components, and its id is registered. -/
theorem apply_create_eq (replica : Replica κ V) {c : EntitySnapshot}
    (hmakes : Makes bevy c.components) :
    ∃ world, applyCreate bevy c replica
        = .ok ⟨⟩ ⟨world, replica.entities.register c.id replica.world.nextEntity⟩
      ∧ Reads bevy world replica.world.nextEntity c.components
      ∧ world.entities replica.world.nextEntity ≠ none
      ∧ ∀ other, other ≠ replica.world.nextEntity →
        world.entities other = replica.world.entities other := by
  have hempty : Reads bevy replica.world.spawnEmpty replica.world.nextEntity [] := by
    refine reads_iff.mpr ⟨List.nodup_nil, fun c => iff_of_false List.not_mem_nil fun hc => ?_⟩
    obtain ⟨adapter, _, component, hget, _⟩ := hc
    rw [World.get_of_entities World.spawn_empty_next] at hget
    cases hget
  have hnext : replica.world.spawnEmpty.entities replica.world.nextEntity ≠ none := by
    rw [World.spawn_empty_next]
    exact Option.some_ne_none _
  obtain ⟨world, hloop, hreads, hlive, hothers⟩ := hempty.insert_components hnext hmakes
  refine ⟨world, ?_, hreads, hlive,
    fun other hne => (hothers other hne).trans (World.spawn_empty_of_ne hne)⟩
  unfold applyCreate
  rw [bind_apply, get_apply]
  dsimp only
  rw [bind_apply, set_apply]
  dsimp only
  rw [on_world_forM (fun component : ComponentSnapshot =>
    bevy.insertComponentFields replica.world.nextEntity component.id component.fields)]
  exact on_world_of_ok hloop

/-- A created entity joins the mirrored snapshot, and the others are left alone. -/
theorem Mirrors.create (h : Mirrors bevy snapshot replica) {c : EntitySnapshot}
    (hfresh : ∀ b, snapshot b → b.id ≠ c.id) (hmakes : Makes bevy c.components) :
    ∃ after, applyCreate bevy c replica = .ok ⟨⟩ after
      ∧ Mirrors bevy (fun b => snapshot b ∨ b = c) after
      ∧ (∀ id, id ≠ c.id → replica.SameAt after id) ∧ (Tidy bevy replica → Tidy bevy after) := by
  obtain ⟨world, hrun, hreads, hlive, hothers⟩ := apply_create_eq replica hmakes
  have hsame : ∀ id, id ≠ c.id → replica.SameAt
      ⟨world, replica.entities.register c.id replica.world.nextEntity⟩ id := by
    intro id hid
    exact ⟨EntityMap.register_of_ne hid, fun e he =>
      hothers e (World.ne_next (h.live_of_mapped he))⟩
  refine ⟨⟨world, replica.entities.register c.id replica.world.nextEntity⟩, hrun,
    ⟨?_, fun id => ?_, fun b e hb he => ?_, fun b e hb he => ?_⟩, hsame, fun htidy e he => ?_⟩
  · refine (EntityMap.inverse_register_iff h.inverse).mpr
      ⟨fun other hother => ?_, fun other hother => ?_⟩
    · rw [h.inverse] at hother
      exact absurd World.entities_next (h.live_of_mapped hother)
    · obtain ⟨b, hb, hid⟩ := (h.mapped c.id).mpr ⟨other, hother⟩
      exact absurd hid (hfresh b hb)
  · by_cases hid : id = c.id
    · exact iff_of_true ⟨c, .inr rfl, hid.symm⟩
        ⟨replica.world.nextEntity, by rw [hid]; exact EntityMap.register_self⟩
    · rw [(hsame id hid).1, ← h.mapped]
      refine exists_congr fun b => and_congr_left fun hb => or_iff_left fun heq => hid ?_
      rw [← hb, heq]
  · rcases hb with hb | rfl
    · have hold := (hsame b.id (hfresh b hb)).1.symm.trans he
      rw [(hsame b.id (hfresh b hb)).2 e hold]
      exact h.live b e hb hold
    · have heq := EntityMap.register_self.symm.trans he
      rw [← Option.some.inj heq]
      exact hlive
  · rcases hb with hb | rfl
    · have hold := (hsame b.id (hfresh b hb)).1.symm.trans he
      exact (h.reads b e hb hold).congr ((hsame b.id (hfresh b hb)).2 e hold)
    · have heq := EntityMap.register_self.symm.trans he
      rw [← Option.some.inj heq]
      exact hreads
  · by_cases hnew : e = replica.world.nextEntity
    · exact ⟨c.id, by rw [hnew]; exact EntityMap.register_self⟩
    · have hbefore : Replicated bevy replica.world e := by
        unfold Replicated at he ⊢
        rwa [snapshot_entity_congr (hothers e hnew)] at he
      obtain ⟨id, hid⟩ := htidy e hbefore
      obtain ⟨b, hb, hbid⟩ := (h.mapped id).mpr ⟨e, hid⟩
      exact ⟨id, (EntityMap.register_of_ne (hbid ▸ hfresh b hb)).trans hid⟩

/-- The pass over the created entities. -/
theorem Mirrors.creates (h : Mirrors bevy snapshot replica) {creates : List EntitySnapshot}
    (hdistinct : creates.Pairwise fun a b => a.id ≠ b.id)
    (hfresh : ∀ c ∈ creates, ∀ b, snapshot b → b.id ≠ c.id)
    (hmakes : ∀ c ∈ creates, Makes bevy c.components) :
    ∃ after, creates.forM (applyCreate bevy) replica = .ok ⟨⟩ after
      ∧ Mirrors bevy (fun b => snapshot b ∨ b ∈ creates) after
      ∧ (∀ id, (∀ c ∈ creates, c.id ≠ id) → replica.SameAt after id)
      ∧ (Tidy bevy replica → Tidy bevy after) := by
  induction creates generalizing snapshot replica with
  | nil =>
      exact ⟨replica, rfl, h.congr fun b => (or_iff_left List.not_mem_nil).symm,
        fun id _ => Replica.SameAt.refl replica id, fun htidy => htidy⟩
  | cons c rest ih =>
      obtain ⟨next, hnext, hmirror, hsame, htidy⟩ := h.create
        (hfresh c List.mem_cons_self) (hmakes c List.mem_cons_self)
      rw [List.pairwise_cons] at hdistinct
      have hfreshRest : ∀ c' ∈ rest, ∀ b, snapshot b ∨ b = c → b.id ≠ c'.id := by
        intro c' hc' b hb
        rcases hb with hb | rfl
        · exact hfresh c' (List.mem_cons_of_mem _ hc') b hb
        · exact hdistinct.1 c' hc'
      obtain ⟨after, hafter, hall, hsameRest, htidyRest⟩ := ih hmirror hdistinct.2 hfreshRest
        fun c' hc' => hmakes c' (List.mem_cons_of_mem _ hc')
      refine ⟨after, ?_, hall.congr fun b => ?_, fun id hid => ?_, fun h => htidyRest (htidy h)⟩
      · rw [List.forM, bind_apply, hnext]
        exact hafter
      · rw [List.mem_cons, or_assoc]
      · rw [List.forall_mem_cons] at hid
        exact (hsame id fun heq => hid.1 heq.symm).trans (hsameRest id hid.2)

/-! ## Updates -/

/-- The codec writes the fields of a component one after another. -/
theorem apply_fields_foldl {id : ComponentId} {fields result : List FieldValue}
    {updates : List (Nat × FieldValue)} (h : Delta.applyFields id fields updates = .ok result) :
    result = updates.foldl (fun fields update => fields.set update.1 update.2) fields := by
  induction updates generalizing fields with
  | nil =>
      cases h
      rfl
  | cons update updates ih =>
      unfold Delta.applyFields at h ih
      rw [List.foldlM_cons] at h
      obtain ⟨next, hnext, h⟩ := bind_eq_ok.mp h
      obtain ⟨hlt, hstore⟩ := check_fail_eq_ok.mp hnext
      rw [store_of_lt (Nat.lt_of_not_le hlt)] at hstore
      cases hstore
      exact ih h

omit [DecidableEq κ] in
/-- A consistent component type does the same. -/
theorem ComponentAdapter.Consistent.applyFields {adapter : ComponentAdapter ε κ V}
    (h : adapter.Consistent) {fields : List (Nat × FieldValue)}
    (hfields : ∀ field ∈ fields, adapter.schemaDef.HoldsField field) (component : V) :
    ∃ component', adapter.applyFields fields component = .ok ⟨⟩ component'
      ∧ adapter.readFields component'
        = fields.foldl (fun fields field => fields.set field.1 field.2)
          (adapter.readFields component) := by
  induction fields generalizing component with
  | nil => exact ⟨component, rfl, rfl⟩
  | cons field fields ih =>
      rw [List.forall_mem_cons] at hfields
      obtain ⟨next, hnext, hread⟩ := h.applyField field.1 field.2 component hfields.1
      obtain ⟨component', hrest, hreadRest⟩ := ih hfields.2 next
      refine ⟨component', ?_, ?_⟩
      · unfold ComponentAdapter.applyFields at hrest ⊢
        rw [List.forM, bind_apply, hnext]
        exact hrest
      · rw [hreadRest, hread, List.foldl_cons]

/-- What the codec does to an entity when it updates a component of it. -/
theorem apply_component_ok {b b' : EntitySnapshot} {update : DeltaUpdateComponent}
    (h : Delta.applyComponent b update = .ok b')
    (hnodup : (b.components.map ComponentSnapshot.id).Nodup) :
    b'.id = b.id ∧ (b'.components.map ComponentSnapshot.id).Nodup
      ∧ ∃ component ∈ b.components, component.id = update.id
        ∧ ∀ c, c ∈ b'.components ↔ c = ⟨update.id, update.fields.foldl
            (fun fields field => fields.set field.1 field.2) component.fields⟩
          ∨ c ∈ b.components ∧ c.id ≠ update.id := by
  unfold Delta.applyComponent at h
  cases hfind : b.components.findIdx? fun component => component.id = update.id with
  | none =>
      rw [hfind] at h
      cases h
  | some idx =>
      rw [hfind] at h
      obtain ⟨hlt, hidx, -⟩ := List.findIdx?_eq_some_iff_getElem.mp hfind
      have hid : b.components[idx].id = update.id := of_decide_eq_true hidx
      have hsome := List.getElem?_eq_getElem hlt
      simp only [index_of_some hsome, pure_bind] at h
      obtain ⟨fields, hfields, h⟩ := bind_eq_ok.mp h
      rw [store_of_lt hlt, pure_bind] at h
      cases h
      obtain rfl := apply_fields_foldl hfields
      have hdistinct : b.components.Pairwise fun x y => x.id ≠ y.id := List.pairwise_map.mp hnodup
      refine ⟨rfl, ?_, _, List.getElem_mem hlt, hid, fun c => ?_⟩
      · refine Eq.mpr (congrArg List.Nodup (map_set_of_key hsome ?_)) hnodup
        rfl
      · rw [mem_set_of_key hdistinct hsome, hid]

/-- An update that the adapters can make: each of its fields is one of an adapter, with a value in
its range. -/
def KnownUpdate (bevy : BevySchema ε κ V) (update : DeltaUpdateComponent) : Prop :=
  ∃ adapter ∈ bevy.adapters, adapter.componentId = update.id
    ∧ ∀ field ∈ update.fields, adapter.schemaDef.HoldsField field

/-- Where the codec updates a component of an entity, so does the adapter. -/
theorem Reads.update (hconsistent : ∀ adapter ∈ bevy.adapters, adapter.Consistent)
    {b b' : EntitySnapshot} {update : DeltaUpdateComponent} (h : Reads bevy world e b.components)
    (hlive : world.entities e ≠ none) (hknown : KnownUpdate bevy update)
    (happly : Delta.applyComponent b update = .ok b') :
    ∃ after, bevy.applyComponentFields e update.id update.fields world = .ok ⟨⟩ after
      ∧ Reads bevy after e b'.components ∧ after.entities e ≠ none
      ∧ ∀ other, other ≠ e → after.entities other = world.entities other := by
  obtain ⟨hnodup, hmem⟩ := reads_iff.mp h
  obtain ⟨-, hnodup', component, hcomponent, hid, hmem'⟩ := apply_component_ok happly hnodup
  obtain ⟨adapter, hadapter, hadapterId, hfields⟩ := hknown
  obtain ⟨other, hother, value, hget, hread⟩ := (hmem component).mp hcomponent
  -- The adapter that reads the component is the one of the update.
  obtain rfl : other = adapter := BevySchema.eq_of_component_id_eq hother hadapter
    ((congrArg ComponentSnapshot.id hread).symm.trans (hid.trans hadapterId.symm))
  obtain ⟨value', hvalue, hreadValue⟩ := (hconsistent other hother).applyFields hfields value
  refine ⟨world.set e other.typeId value', ?_, ?_, World.set_ne_none hlive,
    fun entity hne => World.set_of_ne hne⟩
  · unfold BevySchema.applyComponentFields
    rw [bind_apply, ← hadapterId, BevySchema.known_adapter_of_mem hadapter]
    show other.applyUpdate e update.fields world = _
    rw [ComponentAdapter.apply_update_of_some hget]
    refine focus_of_ok ?_
    unfold Call.mapErr
    rw [hvalue]
  · refine h.set hlive hadapter hnodup' fun c => ?_
    rw [hmem', hreadValue, hadapterId]
    have hfieldsEq : other.readFields value = component.fields :=
      (congrArg ComponentSnapshot.fields hread).symm
    rw [hfieldsEq]

/-- The loop over the components of an update. -/
theorem Reads.updates (hconsistent : ∀ adapter ∈ bevy.adapters, adapter.Consistent)
    {b b' : EntitySnapshot} {updates : List DeltaUpdateComponent}
    (h : Reads bevy world e b.components) (hlive : world.entities e ≠ none)
    (hknown : ∀ update ∈ updates, KnownUpdate bevy update)
    (happly : updates.foldlM Delta.applyComponent b = .ok b') :
    b'.id = b.id ∧ ∃ after,
      updates.forM (fun update => bevy.applyComponentFields e update.id update.fields) world
        = .ok ⟨⟩ after
      ∧ Reads bevy after e b'.components ∧ after.entities e ≠ none
      ∧ ∀ other, other ≠ e → after.entities other = world.entities other := by
  induction updates generalizing world b with
  | nil =>
      cases happly
      exact ⟨rfl, world, rfl, h, hlive, fun _ _ => rfl⟩
  | cons update updates ih =>
      rw [List.foldlM_cons] at happly
      rw [List.forall_mem_cons] at hknown
      obtain ⟨next, hnext, hrest⟩ := bind_eq_ok.mp happly
      obtain ⟨world', hfirst, hreads, hlive', hothers⟩ := h.update hconsistent hlive hknown.1 hnext
      obtain ⟨hid, after, hloop, hafter, hliveAfter, hothersAfter⟩ :=
        ih hreads hlive' hknown.2 hrest
      refine ⟨hid.trans (apply_component_ok hnext (reads_iff.mp h).1).1, after, ?_, hafter,
        hliveAfter, fun other hne => (hothersAfter other hne).trans (hothers other hne)⟩
      rw [List.forM, bind_apply, hfirst]
      exact hloop

/-- What the codec does to the entities when it updates one of them. -/
theorem apply_update_ok {entities result : List EntitySnapshot} {update : DeltaUpdateEntity}
    (hentities : Ascending entities) (h : Delta.applyUpdate entities update = .ok result) :
    ∃ b ∈ entities, b.id = update.id
      ∧ ∃ b', update.components.foldlM Delta.applyComponent b = .ok b'
      ∧ (b'.id = b.id → Ascending result)
      ∧ ∀ c, c ∈ result ↔ c = b' ∨ c ∈ entities ∧ c.id ≠ update.id := by
  unfold Delta.applyUpdate at h
  cases hfind : binarySearchBy entityKey entities update.id.raw with
  | none =>
      rw [hfind] at h
      cases h
  | some idx =>
      rw [hfind] at h
      obtain ⟨b, hsome, hkey⟩ := (binary_search_by_eq_some hentities).mp hfind
      have hid : b.id = update.id := entity_id_eq hkey
      simp only [index_of_some hsome, pure_bind] at h
      obtain ⟨b', hb', h⟩ := bind_eq_ok.mp h
      rw [store_of_lt (List.getElem?_eq_some_iff.mp hsome).1] at h
      cases h
      have hdistinct : entities.Pairwise fun x y => x.id ≠ y.id := by
        refine hentities.imp fun {x y} hlt heq => ?_
        rw [heq] at hlt
        exact UInt32.lt_irrefl _ hlt
      refine ⟨b, List.mem_of_getElem? hsome, hid, b', hb', fun hsame => ?_, fun c => ?_⟩
      · exact ascending_of_ids_eq hentities (map_set_of_key hsome hsame)
      · rw [mem_set_of_key hdistinct hsome, hid]

/-- The adapters can write the components of an update to an entity that reads as `before`, which
reads as `after` then. -/
def Rewrites (bevy : BevySchema ε κ V) (update : DeltaUpdateEntity)
    (before after : List ComponentSnapshot) : Prop :=
  ∀ (world : World κ V) e, Reads bevy world e before → world.entities e ≠ none →
    ∃ world', update.components.forM
        (fun component => bevy.applyComponentFields e component.id component.fields) world
        = .ok ⟨⟩ world'
      ∧ Reads bevy world' e after ∧ world'.entities e ≠ none
      ∧ ∀ other, other ≠ e → world'.entities other = world.entities other

/-- An update of a mirrored entity whose components the adapters can write. -/
theorem Mirrors.update_entity {update : DeltaUpdateEntity} (h : Mirrors bevy snapshot replica)
    {b : EntitySnapshot} (hb : snapshot b) (hid : b.id = update.id)
    (hrun : Rewrites bevy update b.components components') :
    ∃ after, applyDeltaUpdate bevy update replica = .ok ⟨⟩ after
      ∧ Mirrors bevy (fun c => c = ⟨update.id, components'⟩ ∨ snapshot c ∧ c.id ≠ update.id) after
      ∧ (∀ id, id ≠ update.id → replica.SameAt after id)
      ∧ (Tidy bevy replica → Tidy bevy after) := by
  obtain ⟨e, he⟩ := (h.mapped update.id).mp ⟨b, hb, hid⟩
  have heb : replica.entities.toEntity b.id = some e := by rwa [hid]
  obtain ⟨world, hloop, hreads, hlive, hothers⟩ :=
    hrun replica.world e (h.reads b e hb heb) (h.live b e hb heb)
  -- no other id is mapped to the entity that is updated
  have hsame : ∀ id, id ≠ update.id → replica.SameAt ⟨world, replica.entities⟩ id := by
    intro id hne
    refine ⟨rfl, fun other hother => hothers other fun heq => hne ?_⟩
    rw [heq, ← h.inverse] at hother
    rw [← h.inverse, hother] at he
    exact Option.some.inj he
  refine ⟨⟨world, replica.entities⟩, ?_,
    ⟨h.inverse, fun id => ?_, fun c entity hc hentity => ?_, fun c entity hc hentity => ?_⟩, hsame,
    fun htidy other hother => ?_⟩
  · unfold applyDeltaUpdate EntityMap.entity
    rw [bind_apply, get_apply]
    dsimp only
    rw [he]
    dsimp only
    rw [on_world_forM (fun component : DeltaUpdateComponent =>
      bevy.applyComponentFields e component.id component.fields)]
    exact on_world_of_ok hloop
  · dsimp only
    rw [← h.mapped]
    constructor
    · intro hex
      obtain ⟨c, hc, rfl⟩ := hex
      rcases hc with rfl | hold
      · exact ⟨b, hb, hid⟩
      · exact ⟨c, hold.1, rfl⟩
    · intro hex
      obtain ⟨c, hc, rfl⟩ := hex
      by_cases hcid : c.id = update.id
      · exact ⟨⟨update.id, components'⟩, .inl rfl, hcid.symm⟩
      · exact ⟨c, .inr ⟨hc, hcid⟩, rfl⟩
  · rcases hc with rfl | hold
    · rw [he] at hentity
      cases hentity
      exact hlive
    · rw [(hsame c.id hold.2).2 entity hentity]
      exact h.live c entity hold.1 hentity
  · rcases hc with rfl | hold
    · rw [he] at hentity
      cases hentity
      exact hreads
    · exact (h.reads c entity hold.1 hentity).congr ((hsame c.id hold.2).2 entity hentity)
  · by_cases heq : other = e
    · exact ⟨update.id, by rw [heq]; exact he⟩
    · refine htidy other ?_
      unfold Replicated at hother ⊢
      rwa [snapshot_entity_congr (hothers other heq)] at hother

/-- Updates of different mirrored entities. -/
theorem Mirrors.update_all {updates : List DeltaUpdateEntity} (h : Mirrors bevy snapshot replica)
    (hdistinct : updates.Pairwise fun a b => a.id ≠ b.id)
    (target : DeltaUpdateEntity → List ComponentSnapshot)
    (hrun : ∀ u ∈ updates, ∃ b, snapshot b ∧ b.id = u.id
      ∧ Rewrites bevy u b.components (target u)) :
    ∃ after, applyDeltaUpdates bevy updates replica = .ok ⟨⟩ after
      ∧ Mirrors bevy (fun c => (∃ u ∈ updates, c = ⟨u.id, target u⟩)
        ∨ snapshot c ∧ ∀ u ∈ updates, c.id ≠ u.id) after
      ∧ (Tidy bevy replica → Tidy bevy after) := by
  unfold applyDeltaUpdates
  induction updates generalizing snapshot replica with
  | nil =>
      refine ⟨replica, rfl, h.congr fun c => ?_, fun htidy => htidy⟩
      simp only [List.not_mem_nil, false_and, exists_false, false_or, IsEmpty.forall_iff,
        implies_true, and_true]
  | cons u rest ih =>
      rw [List.pairwise_cons] at hdistinct
      rw [List.forall_mem_cons] at hrun
      obtain ⟨b, hb, hid, hrewrites⟩ := hrun.1
      obtain ⟨next, hfirst, hmirror, -, htidy⟩ := h.update_entity hb hid hrewrites
      obtain ⟨after, hloop, hafter, htidyRest⟩ := ih hmirror hdistinct.2 fun u' hu' => by
        obtain ⟨b', hb', hid', hrewrites'⟩ := hrun.2 u' hu'
        exact ⟨b', .inr ⟨hb', fun heq => hdistinct.1 u' hu' (heq.symm.trans hid')⟩,
          hid', hrewrites'⟩
      refine ⟨after, ?_, hafter.congr fun c => ?_, fun h => htidyRest (htidy h)⟩
      · rw [List.forM, bind_apply, hfirst]
        exact hloop
      · rw [List.exists_mem_cons_iff, List.forall_mem_cons]
        constructor
        · intro hc
          rcases hc with hc | ⟨rfl | hc, hne⟩
          · exact .inl (.inr hc)
          · exact .inl (.inl rfl)
          · exact .inr ⟨hc.1, hc.2, hne⟩
        · intro hc
          rcases hc with (rfl | hc) | ⟨hc, hne, hrest⟩
          · exact .inr ⟨.inl rfl, hdistinct.1⟩
          · exact .inl hc
          · exact .inr ⟨.inr ⟨hc, hne⟩, hrest⟩

/-- Where the codec updates an entity, so does the adapter, and leaves the others alone. -/
theorem Mirrors.update {entities result : List EntitySnapshot} {update : DeltaUpdateEntity}
    (h : Mirrors bevy (· ∈ entities) replica)
    (hconsistent : ∀ adapter ∈ bevy.adapters, adapter.Consistent) (hentities : Ascending entities)
    (hknown : ∀ component ∈ update.components, KnownUpdate bevy component)
    (happly : Delta.applyUpdate entities update = .ok result) :
    ∃ after, applyDeltaUpdate bevy update replica = .ok ⟨⟩ after ∧ Ascending result
      ∧ Mirrors bevy (· ∈ result) after ∧ ∀ id, id ≠ update.id → replica.SameAt after id := by
  obtain ⟨b, hb, hid, b', hcomponents, hascend, hmem⟩ := apply_update_ok hentities happly
  obtain ⟨e, he⟩ := (h.mapped b.id).mp ⟨b, hb, rfl⟩
  obtain ⟨hsameId, -⟩ :=
    (h.reads b e hb he).updates hconsistent (h.live b e hb he) hknown hcomponents
  obtain ⟨after, hrun, hmirror, hsame, -⟩ := h.update_entity hb hid fun world e hreads hlive =>
    (hreads.updates hconsistent hlive hknown hcomponents).2
  refine ⟨after, hrun, hascend hsameId, hmirror.congr fun c => ?_, hsame⟩
  have heq : (⟨update.id, b'.components⟩ : EntitySnapshot) = b' := by rw [← hid, ← hsameId]
  rw [hmem, heq]

/-- The pass over the updates. -/
theorem Mirrors.updates {entities result : List EntitySnapshot} {updates : List DeltaUpdateEntity}
    (h : Mirrors bevy (· ∈ entities) replica)
    (hconsistent : ∀ adapter ∈ bevy.adapters, adapter.Consistent) (hentities : Ascending entities)
    (hknown : ∀ update ∈ updates, ∀ component ∈ update.components, KnownUpdate bevy component)
    (happly : Delta.applyUpdates entities updates = .ok result) :
    ∃ after, applyDeltaUpdates bevy updates replica = .ok ⟨⟩ after
      ∧ Mirrors bevy (· ∈ result) after
      ∧ ∀ id, id ∉ updates.map DeltaUpdateEntity.id → replica.SameAt after id := by
  unfold Delta.applyUpdates at happly
  unfold applyDeltaUpdates
  induction updates generalizing entities replica with
  | nil =>
      cases happly
      exact ⟨replica, rfl, h, fun id _ => Replica.SameAt.refl replica id⟩
  | cons update updates ih =>
      rw [List.foldlM_cons] at happly
      rw [List.forall_mem_cons] at hknown
      obtain ⟨next, hnext, hrest⟩ := bind_eq_ok.mp happly
      obtain ⟨middle, hfirst, hascend, hmirror, hsame⟩ :=
        h.update hconsistent hentities hknown.1 hnext
      obtain ⟨after, hloop, hafter, hsameRest⟩ := ih hmirror hascend hknown.2 hrest
      refine ⟨after, ?_, hafter, fun id hid => ?_⟩
      · rw [List.forM, bind_apply, hfirst]
        exact hloop
      · rw [List.map_cons, List.mem_cons, not_or] at hid
        exact (hsame id hid.1).trans (hsameRest id hid.2)

/-! ## Whole deltas -/

section Build

variable {builder : BevySchemaBuilder ε κ V} (hbuild : builder.build = .ok bevy)

include hbuild

omit [DecidableEq κ] in
/-- The definitions of the schema are those of the adapters. -/
theorem adapter_of_definition {definition : ComponentDef}
    (hdefinition : definition ∈ bevy.schema.components) :
    ∃ adapter ∈ bevy.adapters, adapter.schemaDef = definition := by
  rw [(BevySchemaBuilder.build_eq_ok hbuild).1] at hdefinition
  exact List.mem_map.mp hdefinition

omit [DecidableEq κ] in
/-- The adapters can make the components of an entity that is well-formed for their schema. -/
theorem creatable_of_well_formed {entity : EntitySnapshot} (h : entity.WellFormed bevy.schema) :
    Creatable bevy entity.components := by
  refine ⟨List.pairwise_map.mpr (h.shaped.pairwise_ne (BevySchemaBuilder.build_eq_ok hbuild).2),
    fun c hc => ?_⟩
  obtain ⟨definition, hdefinition, hwf⟩ := exists_of_sublistForall₂ h hc
  obtain ⟨adapter, hadapter, rfl⟩ := adapter_of_definition hbuild hdefinition
  exact ⟨adapter, hadapter, hwf.id.symm, hwf.fields⟩

omit [DecidableEq κ] in
theorem known_of_accepted {limits : CodecLimits} {update : DeltaUpdateComponent}
    (h : update.Accepted bevy.schema limits) : KnownUpdate bevy update := by
  obtain ⟨definition, hdefinition, hid, hfields⟩ := h.known
  obtain ⟨adapter, hadapter, rfl⟩ := adapter_of_definition hbuild hdefinition
  exact ⟨adapter, hadapter, hid.symm, hfields⟩

end Build

/-- The Bevy adapter simulates the codec: it applies every decoded delta that the codec can apply to
a snapshot to every world that mirrors the snapshot, and the world mirrors the result. Entities that
the delta does not name are what they were. -/
theorem apply_changes_simulates {builder : BevySchemaBuilder ε κ V}
    (hbuild : builder.build = .ok bevy)
    (hconsistent : ∀ adapter ∈ bevy.adapters, adapter.Consistent) {build : Build}
    {packet : Wire.WirePacket} {limits : CodecLimits} {decoded : DeltaDecoded}
    (hdecode : decodeDeltaPacket build bevy.schema packet limits = .ok decoded)
    {baseline result : List EntitySnapshot} (hsorted : ensureEntitiesSorted baseline = .ok ())
    (happly :
      Sdec.applyChanges baseline decoded.destroys decoded.creates decoded.updates = .ok result)
    (hmirror : Mirrors bevy (· ∈ baseline) replica) :
    ∃ after, applyChanges bevy decoded.creates decoded.destroys decoded.updates replica
      = .ok () after
      ∧ Mirrors bevy (· ∈ result) after
      ∧ ∀ b ∈ baseline, b.id ∉ decoded.destroys → b.id ∉ decoded.updates.map DeltaUpdateEntity.id →
        replica.SameAt after b.id := by
  have hvalid := (BevySchemaBuilder.build_eq_ok hbuild).2
  have haccepted := (@decode_delta_packet_ensures build bevy.schema limits True hvalid
    (fun _ _ => trivial) packet).of_ok hdecode
  have hbaseline := ensure_entities_sorted_eq_ok.mp hsorted
  obtain ⟨remaining, hremaining, hrest⟩ := bind_eq_ok.mp happly
  obtain ⟨merged, hmerged, hupdates⟩ := bind_eq_ok.mp hrest
  obtain ⟨-, hfresh, hascend, hmem⟩ := merged_survives hbaseline haccepted.destroysAscend
    haccepted.createsAscend hremaining hmerged
  have hdistinct : decoded.creates.Pairwise fun a b => a.id ≠ b.id := by
    refine haccepted.createsAscend.imp fun {x y} hlt heq => ?_
    rw [heq] at hlt
    exact UInt32.lt_irrefl _ hlt
  obtain ⟨hdestroyed, hsameDestroyed⟩ := hmirror.destroys decoded.destroys
  obtain ⟨created, hcreates, hcreated, hsameCreated, -⟩ := hdestroyed.creates hdistinct
    (fun c hc b hb => hfresh c hc b hb.1 hb.2) fun c hc =>
      (creatable_of_well_formed hbuild (haccepted.createsAccepted c hc).wellFormed).makes
        hconsistent
  obtain ⟨after, hafter, hupdated, hsameUpdated⟩ :=
    (hcreated.congr fun b => (hmem b).symm).updates hconsistent hascend
      (fun update hupdate component hcomponent => known_of_accepted hbuild
        ((haccepted.updates.accepted update hupdate).components component hcomponent)) hupdates
  refine ⟨after, ?_, hupdated, fun b hb hdestroy hupdate => ?_⟩
  · unfold applyChanges
    rw [bind_apply, apply_destroys_eq]
    dsimp only
    rw [bind_apply, hcreates]
    exact hafter
  · have hnew : ∀ c ∈ decoded.creates, c.id ≠ b.id := fun c hc hid =>
      hfresh c hc b hb hdestroy hid.symm
    exact ((hsameDestroyed b.id hdestroy).trans (hsameCreated b.id hnew)).trans
      (hsameUpdated b.id hupdate)

theorem golden_adapter_consistent :
    ∀ adapter ∈ (BevySchema.sole goldenAdapter).adapters, adapter.Consistent := by
  intro adapter hadapter
  obtain rfl := List.mem_singleton.mp hadapter
  exact ⟨fun fields _ => ⟨fields, rfl, rfl⟩, fun idx value fields _ =>
    ⟨fields.set idx value, rfl, rfl⟩⟩

/-- A delta packet of `goldenSchema` that destroys the second golden entity and updates the
first. -/
def goldenUpdates : Wire.WirePacket :=
  ⟨Wire.PacketHeader.deltaSnapshot (schemaHash (goldenBuild false) goldenSchema) 9 8 17,
    [⟨.entityDestroy, [1, 9, 0, 0, 0]⟩,
      ⟨.entityUpdateSparsePacked, [1, 3, 10, 3, 8, 3, 236, 128]⟩]⟩

/-- The update in `goldenUpdates`. -/
def goldenUpdate : DeltaUpdateEntity :=
  ⟨⟨3⟩, [⟨⟨10, nonzero_ten⟩, [(0, .bool false), (1, .sint 7), (3, .fixedPoint (-100))]⟩]⟩

/-- A new world takes the golden entities and then the update. -/
theorem apply_changes_simulates_golden :
    ∃ created after,
      applyChanges (.sole goldenAdapter) goldenEntities [] [] ⟨.new, .new⟩ = .ok () created
        ∧ Mirrors (.sole goldenAdapter) (· ∈ goldenEntities) created
        ∧ applyChanges (.sole goldenAdapter) [] [⟨9⟩] [goldenUpdate] created = .ok () after
        ∧ Mirrors (.sole goldenAdapter)
          (· ∈ [⟨⟨3⟩, [⟨⟨10, nonzero_ten⟩, [.bool false, .sint 7, .uint 17, .fixedPoint (-100)]⟩]⟩])
          after := by
  have hbuild : (BevySchemaBuilder.new.component goldenAdapter).build
      = .ok (BevySchema.sole goldenAdapter) := rfl
  have hempty : Mirrors (BevySchema.sole goldenAdapter) (· ∈ ([] : List EntitySnapshot))
      ⟨.new, .new⟩ := by
    refine ⟨EntityMap.inverse_new, fun id => iff_of_false (fun h => ?_) (fun h => ?_),
      fun b _ hb => absurd hb List.not_mem_nil, fun b _ hb => absurd hb List.not_mem_nil⟩
    · obtain ⟨b, hb, -⟩ := h
      exact absurd hb List.not_mem_nil
    · obtain ⟨e, he⟩ := h
      cases he
  have hcreates : decodeDeltaPacket (goldenBuild false) goldenSchema goldenCreates goldenLimits
      = .ok ⟨⟨8⟩, ⟨7⟩, [], goldenEntities, []⟩ := by decide +kernel
  have hupdates : decodeDeltaPacket (goldenBuild false) goldenSchema goldenUpdates goldenLimits
      = .ok ⟨⟨9⟩, ⟨8⟩, [⟨9⟩], [], [goldenUpdate]⟩ := by decide +kernel
  have happlyCreates : Sdec.applyChanges [] [] goldenEntities [] = .ok goldenEntities := by
    decide +kernel
  have happlyUpdates : Sdec.applyChanges goldenEntities [⟨9⟩] [] [goldenUpdate]
      = .ok [⟨⟨3⟩,
        [⟨⟨10, nonzero_ten⟩, [.bool false, .sint 7, .uint 17, .fixedPoint (-100)]⟩]⟩] := by
    decide +kernel
  obtain ⟨created, hfirst, hmirror, -⟩ := apply_changes_simulates hbuild golden_adapter_consistent
    hcreates (by decide +kernel) happlyCreates hempty
  obtain ⟨after, hsecond, hresult, -⟩ := apply_changes_simulates hbuild golden_adapter_consistent
    hupdates (by decide +kernel) happlyUpdates hmirror
  exact ⟨created, after, hfirst, hmirror, hsecond, hresult⟩

end Sdec.Bevy
