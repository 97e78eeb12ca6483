import Sdec.Bevy.Mirror
import Sdec.BevyDemo.Client

/-!
# How the client takes over a full snapshot

What `apply_full_snapshot` does to any world and map, as `resync_client` uses it after a packet that
could not be applied. The loop over the entities never takes a component off an entity. A component
that the client has and the snapshot lacks stays where it is.
-/

namespace Sdec.BevyDemo

open Rust Codec Bevy

variable {ε κ V : Type}

/-- Every component of the type has the fields of the schema. -/
def FixedFields (adapter : ComponentAdapter ε κ V) : Prop :=
  ∀ component, (adapter.readFields component).length = adapter.schemaDef.fields.length

/-- The map is a bijection between ids and live entities. -/
structure Tended (replica : Replica κ V) : Prop where
  inverse : replica.entities.Inverse
  live : ∀ id e, replica.entities.toEntity id = some e → replica.world.entities e ≠ none

/-- The replicated components of the entity of an id. -/
def readAt (bevy : BevySchema ε κ V) (replica : Replica κ V) (id : EntityId) :
    List ComponentSnapshot :=
  match replica.entities.entity id with
  | some e => bevy.snapshotEntity replica.world e
  | none => []

/-- Components laid over others, which stay where they have other ids. -/
def overlay (components old : List ComponentSnapshot) : List ComponentSnapshot :=
  components ++ old.filter fun c => c.id ∉ components.map ComponentSnapshot.id

/-- Ascending entities have different ids. -/
theorem ids_ne_of_ascending {entities : List EntitySnapshot} (h : Ascending entities) :
    entities.Pairwise fun a b => a.id ≠ b.id := by
  refine h.imp fun {a b} hlt heq => ?_
  rw [heq] at hlt
  exact UInt32.lt_irrefl _ hlt

variable {bevy : BevySchema ε κ V} {world : World κ V} {replica : Replica κ V} {e : Entity}
  {components old : List ComponentSnapshot}

/-! ## Components -/

/-- The values of a list written over others, one index after the other. -/
theorem foldl_set_zip_idx {α : Type} {xs ys : List α} (h : ys.length = xs.length) :
    (xs.zipIdx.map Prod.swap).foldl (fun ys p => ys.set p.1 p.2) ys = xs := by
  -- `done` has been written over, `tail` is what is left
  suffices hloop : ∀ (rest done tail : List α), tail.length = rest.length →
      ((rest.zipIdx done.length).map Prod.swap).foldl (fun ys p => ys.set p.1 p.2) (done ++ tail)
        = done ++ rest from hloop xs [] ys h
  intro rest
  induction rest with
  | nil =>
      intro done tail hlength
      rw [List.length_eq_zero_iff.mp hlength]
      rfl
  | cons x rest ih =>
      intro done tail hlength
      cases tail with
      | nil => cases hlength
      | cons y tail =>
          have hset : (done ++ y :: tail).set done.length x = done ++ [x] ++ tail := by
            rw [List.set_append_right _ _ (Nat.le_refl _), Nat.sub_self, List.set_cons_zero,
              List.append_cons]
          rw [List.zipIdx_cons, List.map_cons, List.foldl_cons]
          show ((rest.zipIdx (done.length + 1)).map Prod.swap).foldl _
            ((done ++ y :: tail).set done.length x) = _
          rw [hset, List.append_cons done x rest, ← ih (done ++ [x]) tail (Nat.succ.inj hlength),
            List.length_append, List.length_singleton]

/-- The fields of a component with their indices are fields of its definition. -/
theorem holds_indexed_fields {definition : ComponentDef} {fields : List FieldValue}
    (h : List.Forall₂ (fun (field : FieldDef) value => field.codec.Contains value)
      definition.fields fields) :
    ∀ p ∈ fields.zipIdx.map Prod.swap, definition.HoldsField p := by
  intro p hp
  obtain ⟨⟨value, idx⟩, hmem, rfl⟩ := List.mem_map.mp hp
  have hvalue : fields[idx]? = some value := List.mem_zipIdx_iff_getElem?.mp hmem
  obtain ⟨hlt, hget⟩ := List.getElem?_eq_some_iff.mp hvalue
  have hlt' : idx < definition.fields.length := h.length_eq ▸ hlt
  refine ⟨definition.fields[idx], List.getElem?_eq_getElem hlt', ?_⟩
  have hcontains := List.forall₂_iff_get.mp h |>.2 idx hlt' hlt
  rw [← hget]
  exact hcontains

variable [DecidableEq κ]

/-- Whether the entity has the component or not, it has the one of the snapshot afterwards. -/
theorem sync_component_eq {adapter : ComponentAdapter ε κ V} (hadapter : adapter ∈ bevy.adapters)
    (hconsistent : adapter.Consistent) (hfixed : FixedFields adapter) {c : ComponentSnapshot}
    (hid : adapter.componentId = c.id)
    (hfields : List.Forall₂ (fun (field : FieldDef) value => field.codec.Contains value)
      adapter.schemaDef.fields c.fields) (hlive : world.entities e ≠ none) :
    ∃ component, syncComponent bevy e c world = .ok ⟨⟩ (world.set e adapter.typeId component)
      ∧ adapter.readFields component = c.fields := by
  have happly : bevy.applyComponentFields e c.id (c.fields.zipIdx.map Prod.swap) world
      = adapter.applyUpdate e (c.fields.zipIdx.map Prod.swap) world := by
    unfold BevySchema.applyComponentFields
    rw [bind_apply, ← hid, BevySchema.known_adapter_of_mem hadapter]
    rfl
  unfold syncComponent
  rw [bind_apply]
  unfold Call.attempt
  rw [happly]
  cases hget : world.get e adapter.typeId with
  | none =>
      obtain ⟨component, hcomponent, hread⟩ := hconsistent.fromFields c.fields hfields
      refine ⟨component, ?_, hread⟩
      rw [ComponentAdapter.apply_update_of_none hget]
      dsimp only
      rw [← hid]
      exact insert_component_fields_eq hadapter hcomponent hlive
  | some before =>
      obtain ⟨component, hrun, hread⟩ :=
        hconsistent.applyFields (holds_indexed_fields hfields) before
      refine ⟨component, ?_, ?_⟩
      · rw [ComponentAdapter.apply_update_of_some hget]
        unfold Call.focus Call.mapErr
        rw [hrun]
        rfl
      · rw [hread, foldl_set_zip_idx ((hfixed before).trans hfields.length_eq)]

/-- The component of a snapshot takes the place of the one with its id. -/
theorem overlay_cons {c : ComponentSnapshot} (h : c.id ∉ components.map ComponentSnapshot.id) :
    (overlay components (overlay [c] old)).Perm (overlay (c :: components) old) := by
  unfold overlay
  have hkeep : [c].filter (fun x => x.id ∉ components.map ComponentSnapshot.id) = [c] :=
    List.filter_eq_self.mpr fun x hx => decide_eq_true (List.mem_singleton.mp hx ▸ h)
  rw [List.filter_append, List.filter_filter, hkeep]
  have hfilter : old.filter (fun x => decide (x.id ∉ components.map ComponentSnapshot.id)
      && decide (x.id ∉ [c].map ComponentSnapshot.id))
      = old.filter fun x => x.id ∉ (c :: components).map ComponentSnapshot.id := by
    refine List.filter_congr fun x _ => ?_
    rw [List.map_cons, List.map_cons, List.map_nil]
    simp only [List.mem_cons, List.not_mem_nil, or_false, not_or, Bool.decide_and, Bool.and_comm]
  rw [hfilter, List.cons_append, List.nil_append]
  exact List.perm_middle

/-- The loop over the components of an entity. -/
theorem reads_syncs (hconsistent : ∀ adapter ∈ bevy.adapters, adapter.Consistent)
    (hfixed : ∀ adapter ∈ bevy.adapters, FixedFields adapter)
    (hcreatable : Creatable bevy components) (h : Reads bevy world e old)
    (hlive : world.entities e ≠ none) :
    ∃ after, components.forM (syncComponent bevy e) world = .ok ⟨⟩ after
      ∧ Reads bevy after e (overlay components old) ∧ after.entities e ≠ none
      ∧ ∀ other, other ≠ e → after.entities other = world.entities other := by
  induction components generalizing world old with
  | nil =>
      refine ⟨world, rfl, ?_, hlive, fun _ _ => rfl⟩
      have hkeep : overlay [] old = old :=
        List.filter_eq_self.mpr fun c _ => decide_eq_true List.not_mem_nil
      rwa [hkeep]
  | cons c rest ih =>
      have hdistinct := List.nodup_cons.mp hcreatable.distinct
      obtain ⟨adapter, hadapter, hid, hfields⟩ := hcreatable.known c List.mem_cons_self
      obtain ⟨component, hfirst, hread⟩ := sync_component_eq hadapter
        (hconsistent adapter hadapter) (hfixed adapter hadapter) hid hfields hlive
      have hset : Reads bevy (world.set e adapter.typeId component) e (overlay [c] old) := by
        have hnodup : ((overlay [c] old).map ComponentSnapshot.id).Nodup := by
          unfold overlay
          rw [List.map_append, List.nodup_append]
          refine ⟨List.nodup_singleton _, (reads_iff.mp h).1.sublist (List.filter_sublist.map _),
            fun a ha b hb heq => ?_⟩
          obtain ⟨x, hx, rfl⟩ := List.mem_map.mp hb
          exact of_decide_eq_true (List.mem_filter.mp hx).2 (heq ▸ ha)
        refine h.set hlive hadapter hnodup fun x => ?_
        unfold overlay
        rw [List.mem_append, List.mem_singleton, List.mem_filter, decide_eq_true_eq, List.map_cons,
          List.map_nil, List.mem_singleton, hid, hread]
      obtain ⟨after, hrest, hreads, hafter, hothers⟩ := ih
        ⟨hdistinct.2, fun x hx => hcreatable.known x (List.mem_cons_of_mem _ hx)⟩ hset
        (World.set_ne_none hlive)
      refine ⟨after, ?_, hreads.trans (overlay_cons hdistinct.1), hafter, fun other hne => ?_⟩
      · rw [List.forM, bind_apply, hfirst]
        exact hrest
      · rw [hothers other hne, World.set_of_ne hne]

/-! ## Entities -/

omit [DecidableEq κ] in
theorem read_at_of_some {id : EntityId} (h : replica.entities.toEntity id = some e) :
    readAt bevy replica id = bevy.snapshotEntity replica.world e := by
  unfold readAt EntityMap.entity
  rw [h]

omit [DecidableEq κ] in
/-- What is read at an id that stays the same. -/
theorem read_at_congr {after : Replica κ V} {id : EntityId} (h : replica.SameAt after id) :
    readAt bevy after id = readAt bevy replica id := by
  unfold readAt EntityMap.entity
  rw [h.1]
  cases hid : replica.entities.toEntity id with
  | none => rfl
  | some e => exact snapshot_entity_congr (h.2 e hid)

omit [DecidableEq κ] in
/-- An id has an entity after it was looked up, with the components it had. A new entity has
none. -/
theorem mapped_entity_eq (h : Tended replica) (id : EntityId) :
    ∃ after e, mappedEntity (ε := ε) id replica = .ok e after ∧ Tended after
      ∧ after.entities.toEntity id = some e ∧ Reads bevy after.world e (readAt bevy replica id)
      ∧ ∀ other, other ≠ id → replica.SameAt after other := by
  unfold mappedEntity EntityMap.entity
  rw [bind_apply, get_apply]
  dsimp only
  cases hid : replica.entities.toEntity id with
  | some e =>
      refine ⟨replica, e, rfl, h, hid, ?_, fun other _ => Replica.SameAt.refl replica other⟩
      rw [read_at_of_some hid]
      exact List.Perm.refl _
  | none =>
      have hfree : ∀ other e, replica.entities.toEntity other = some e →
          e ≠ replica.world.nextEntity := fun other e he => World.ne_next (h.live other e he)
      have hsame : ∀ other, other ≠ id → replica.SameAt ⟨replica.world.spawnEmpty,
          replica.entities.register id replica.world.nextEntity⟩ other := fun other hne =>
        ⟨EntityMap.register_of_ne hne, fun e he => World.spawn_empty_of_ne (hfree other e he)⟩
      refine ⟨_, _, rfl, ⟨?_, fun other e he => ?_⟩, EntityMap.register_self, ?_, hsame⟩
      · refine (EntityMap.inverse_register_iff h.inverse).mpr
          ⟨fun other hother => ?_, fun other hother => ?_⟩
        · exact absurd rfl (hfree other _ ((h.inverse _ _).mp hother))
        · rw [hid] at hother
          cases hother
      · by_cases hne : other = id
        · rw [hne, EntityMap.register_self] at he
          cases he
          rw [World.spawn_empty_next]
          exact Option.some_ne_none _
        · have hold := (hsame other hne).1.symm.trans he
          rw [(hsame other hne).2 e hold]
          exact h.live other e hold
      · refine reads_iff.mpr ?_
        have hnone : readAt bevy replica id = [] := by
          unfold readAt EntityMap.entity
          rw [hid]
        rw [hnone]
        refine ⟨List.nodup_nil, fun c => iff_of_false List.not_mem_nil fun hc => ?_⟩
        obtain ⟨adapter, _, component, hget, _⟩ := hc
        rw [World.get_of_entities World.spawn_empty_next] at hget
        cases hget

section Loop

variable (hconsistent : ∀ adapter ∈ bevy.adapters, adapter.Consistent)
  (hfixed : ∀ adapter ∈ bevy.adapters, FixedFields adapter)

include hconsistent hfixed

/-- One iteration of the loop: the components of the snapshot are laid over what the entity has, and
no other id is touched. -/
theorem sync_entity_eq (h : Tended replica) {b : EntitySnapshot}
    (hcreatable : Creatable bevy b.components) :
    ∃ after, syncEntity bevy b replica = .ok ⟨⟩ after ∧ Tended after
      ∧ (∃ e, after.entities.toEntity b.id = some e
        ∧ Reads bevy after.world e (overlay b.components (readAt bevy replica b.id)))
      ∧ ∀ id, id ≠ b.id → replica.SameAt after id := by
  obtain ⟨mapped, e, hmap, htended, he, hreads, hsame⟩ := mapped_entity_eq (ε := ε) h b.id
  obtain ⟨world, hloop, hafter, hlive, hothers⟩ :=
    reads_syncs hconsistent hfixed hcreatable hreads (htended.live b.id e he)
  have hkeep : ∀ id, id ≠ b.id → mapped.SameAt ⟨world, mapped.entities⟩ id := by
    refine fun id hne => ⟨rfl, fun other hother => hothers other fun heq => hne ?_⟩
    rw [heq, ← htended.inverse, (htended.inverse e b.id).mpr he] at hother
    exact (Option.some.inj hother).symm
  refine ⟨⟨world, mapped.entities⟩, ?_, ⟨htended.inverse, fun id other hother => ?_⟩,
    ⟨e, he, hafter⟩, fun id hne => (hsame id hne).trans (hkeep id hne)⟩
  · unfold syncEntity
    rw [bind_apply, hmap]
    dsimp only
    rw [on_world_forM (syncComponent bevy e)]
    exact on_world_of_ok hloop
  · by_cases hid : id = b.id
    · rw [hid] at hother
      rw [← Option.some.inj (he.symm.trans hother)]
      exact hlive
    · rw [(hkeep id hid).2 other hother]
      exact htended.live id other hother

/-- The loop over the entities of a snapshot. -/
theorem sync_entities_eq (h : Tended replica) {entities : List EntitySnapshot}
    (hdistinct : entities.Pairwise fun a b => a.id ≠ b.id)
    (hcreatable : ∀ b ∈ entities, Creatable bevy b.components) :
    ∃ after, entities.forM (syncEntity bevy) replica = .ok ⟨⟩ after ∧ Tended after
      ∧ (∀ b ∈ entities, ∃ e, after.entities.toEntity b.id = some e
        ∧ Reads bevy after.world e (overlay b.components (readAt bevy replica b.id)))
      ∧ ∀ id, (∀ b ∈ entities, b.id ≠ id) → replica.SameAt after id := by
  induction entities generalizing replica with
  | nil =>
      exact ⟨replica, rfl, h, List.forall_mem_nil _, fun id _ => Replica.SameAt.refl replica id⟩
  | cons b rest ih =>
      rw [List.pairwise_cons] at hdistinct
      rw [List.forall_mem_cons] at hcreatable
      obtain ⟨next, hfirst, htended, ⟨e, he, hreads⟩, hsame⟩ :=
        sync_entity_eq hconsistent hfixed h hcreatable.1
      obtain ⟨after, hloop, hafter, hrest, hsameRest⟩ := ih htended hdistinct.2 hcreatable.2
      have hlater : next.SameAt after b.id := hsameRest b.id fun c hc => (hdistinct.1 c hc).symm
      refine ⟨after, ?_, hafter, List.forall_mem_cons.mpr ⟨⟨e, hlater.1.trans he, ?_⟩,
        fun c hc => ?_⟩, fun id hid => ?_⟩
      · rw [List.forM, bind_apply, hfirst]
        exact hloop
      · exact hreads.congr (hlater.2 e he)
      · rw [← read_at_congr (hsame c.id (hdistinct.1 c hc).symm)]
        exact hrest c hc
      · rw [List.forall_mem_cons] at hid
        exact (hsame id hid.1.symm).trans (hsameRest id hid.2)

/-! ## The whole snapshot -/

omit hconsistent hfixed

omit [DecidableEq κ] in
/-- The loop that takes out what the snapshot does not have. -/
theorem destroy_unseen_eq (seen ids : List EntityId) (replica : Replica κ V) :
    ids.forM (fun id => if id ∈ seen then return else applyDestroy (ε := ε) id) replica
      = .ok ⟨⟩ ((ids.filter (· ∉ seen)).foldl Replica.destroy replica) := by
  have hstep : ∀ id, (if id ∈ seen then return else applyDestroy id :
      Call (ApplyError ε) (Replica κ V) Unit)
      = (Option.guard (fun id => decide (id ∉ seen)) id).elim (pure ⟨⟩) applyDestroy := by
    intro id
    by_cases hseen : id ∈ seen
    · rw [if_pos hseen, Option.guard, if_neg (by simpa using hseen)]
      rfl
    · rw [if_neg hseen, Option.guard, if_pos (decide_eq_true hseen)]
      rfl
  rw [forM_filterMap hstep, List.filterMap_eq_filter, apply_destroys_eq]

end Loop

section Snapshot

variable {keys : MapIds} {snapshot : Snapshot}
  (hconsistent : ∀ adapter ∈ bevy.adapters, adapter.Consistent)
  (hfixed : ∀ adapter ∈ bevy.adapters, FixedFields adapter)

include hconsistent hfixed

/-- The client mirrors the snapshot with its old components below it, whatever it had before. -/
theorem apply_full_snapshot_mirrors (h : Tended replica)
    (hdistinct : snapshot.entities.Pairwise fun a b => a.id ≠ b.id)
    (hcreatable : ∀ b ∈ snapshot.entities, Creatable bevy b.components) :
    ∃ after, applyFullSnapshot keys bevy snapshot replica = .ok ⟨⟩ after
      ∧ Mirrors bevy (fun c => ∃ b ∈ snapshot.entities,
        c = ⟨b.id, overlay b.components (readAt bevy replica b.id)⟩) after := by
  obtain ⟨synced, hloop, htended, hoverlaid, -⟩ :=
    sync_entities_eq hconsistent hfixed h hdistinct hcreatable
  -- before the destroys, the client has the snapshot and the entities that the snapshot lacks
  have hmirrors : Mirrors bevy (fun c => (∃ b ∈ snapshot.entities,
      c = ⟨b.id, overlay b.components (readAt bevy replica b.id)⟩)
      ∨ c.id ∉ snapshot.entities.map EntitySnapshot.id ∧ ∃ e,
        synced.entities.toEntity c.id = some e
          ∧ c.components = bevy.snapshotEntity synced.world e) synced := by
    refine ⟨htended.inverse, fun id => ⟨fun hc => ?_, fun he => ?_⟩,
      fun c e _ he => htended.live c.id e he, fun c e hc he => ?_⟩
    · obtain ⟨c, ⟨b, hb, rfl⟩ | ⟨_, e, he, _⟩, rfl⟩ := hc
      · obtain ⟨e, he, _⟩ := hoverlaid b hb
        exact ⟨e, he⟩
      · exact ⟨e, he⟩
    · obtain ⟨e, he⟩ := he
      by_cases hid : id ∈ snapshot.entities.map EntitySnapshot.id
      · obtain ⟨b, hb, rfl⟩ := List.mem_map.mp hid
        exact ⟨_, .inl ⟨b, hb, rfl⟩, rfl⟩
      · exact ⟨⟨id, bevy.snapshotEntity synced.world e⟩, .inr ⟨hid, e, he, rfl⟩, rfl⟩
    · rcases hc with ⟨b, hb, rfl⟩ | ⟨_, e', he', hcomponents⟩
      · obtain ⟨e', he', hreads⟩ := hoverlaid b hb
        cases he'.symm.trans he
        exact hreads
      · cases he'.symm.trans he
        rw [hcomponents]
        exact List.Perm.refl _
  have hdestroyed := (hmirrors.destroys ((keys.ids synced.entities).filter
    (· ∉ snapshot.entities.map EntitySnapshot.id))).1
  refine ⟨_, ?_, hdestroyed.congr fun c => ?_⟩
  · unfold applyFullSnapshot
    rw [bind_apply, hloop]
    dsimp only
    rw [bind_apply, get_apply]
    exact destroy_unseen_eq _ _ synced
  · rw [List.mem_filter, decide_eq_true_eq, keys.mem_ids]
    constructor
    · intro hc
      rcases hc with ⟨hc | ⟨hunseen, e, he, _⟩, hkept⟩
      · exact hc
      · exact absurd ⟨he ▸ Option.some_ne_none e, hunseen⟩ hkept
    · intro hc
      obtain ⟨b, hb, rfl⟩ := hc
      exact ⟨.inl ⟨b, hb, rfl⟩, fun hgone => hgone.2 (List.mem_map.mpr ⟨b, hb, rfl⟩)⟩

omit hconsistent hfixed [DecidableEq κ] in
/-- Nothing is left below the components of a snapshot where all ids are among theirs. -/
theorem overlay_eq_self (h : ∀ c ∈ old, c.id ∈ components.map ComponentSnapshot.id) :
    overlay components old = components := by
  unfold overlay
  rw [List.filter_eq_nil_iff.mpr fun c hc => by simpa using h c hc, List.append_nil]

omit hconsistent hfixed [DecidableEq κ] in
/-- A client with the old components below a snapshot mirrors the snapshot if each of them has a
component of the snapshot above it. -/
theorem overlaid_mirrors_iff {entities : List EntitySnapshot} {below : EntityId →
    List ComponentSnapshot} {after : Replica κ V} (h : Mirrors bevy (fun c => ∃ b ∈ entities,
      c = ⟨b.id, overlay b.components (below b.id)⟩) after) :
    Mirrors bevy (· ∈ entities) after ↔ ∀ b ∈ entities, ∀ c ∈ below b.id,
      c.id ∈ b.components.map ComponentSnapshot.id := by
  constructor
  · intro hmirrors b hb c hc
    -- what lies over the old components is read back, and so are the components of the snapshot
    by_contra hid
    have hin : c ∈ overlay b.components (below b.id) :=
      List.mem_append_right _ (List.mem_filter.mpr ⟨hc, decide_eq_true hid⟩)
    obtain ⟨e, he⟩ := (hmirrors.mapped b.id).mp ⟨b, hb, rfl⟩
    have hread := h.reads _ e ⟨b, hb, rfl⟩ he
    have hread' := hmirrors.reads b e hb he
    exact hid (List.mem_map_of_mem (hread'.mem_iff.mp (hread.mem_iff.mpr hin)))
  · intro hnone
    refine h.congr fun c => ⟨fun hc => ?_, fun hc => ?_⟩
    · obtain ⟨b, hb, rfl⟩ := hc
      rwa [overlay_eq_self (hnone b hb)]
    · exact ⟨c, hc, by rw [overlay_eq_self (hnone c hc)]⟩

/-- A well-formed snapshot is taken over. -/
theorem apply_well_formed_snapshot (keys : MapIds) {builder : BevySchemaBuilder ε κ V}
    (hbuild : builder.build = .ok bevy) (h : Tended replica)
    (hwf : Snapshot.WellFormed bevy.schema snapshot.entities) :
    ∃ after, applyFullSnapshot keys bevy snapshot replica = .ok ⟨⟩ after
      ∧ Mirrors bevy (fun c => ∃ b ∈ snapshot.entities,
        c = ⟨b.id, overlay b.components (readAt bevy replica b.id)⟩) after := by
  exact apply_full_snapshot_mirrors hconsistent hfixed h (ids_ne_of_ascending hwf.ascending)
    fun b hb => creatable_of_well_formed hbuild (hwf.entities b hb)

end Snapshot

end Sdec.BevyDemo
