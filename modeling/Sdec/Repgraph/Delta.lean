import Sdec.Diff.Apply
import Sdec.Repgraph.Graph

/-!
# The deltas of the replication graph

What `build_client_delta` puts into a delta, and when a client that holds the entities it is known
to hold can apply it. `pending_creates_ids`, `pending_updates_ids` and `pending_destroys_eq` say
which entities the three lists name, and `build_applicable_iff` is the condition.
-/

namespace Sdec.Repgraph

open Rust Codec Sorted

variable {Vec3 F32 : Type} {inRadius : Vec3 → Vec3 → F32 → Bool}
  {graph : ReplicationGraph Vec3 F32} {state : ClientState Vec3 F32} {world : WorldView}

theorem entity_compare_lt {a b : EntityId} : compare a b = .lt ↔ a.raw < b.raw :=
  Std.compare_eq_lt (α := UInt32)

/-- A world that answers about the entity it is asked about. -/
structure WorldView.Named (world : WorldView) : Prop where
  snapshot : ∀ id, (world.snapshot id).id = id
  update : ∀ id dirty u, world.update id dirty = some u → u.id = id

/-! ## The entities a delta names -/

/-- Whether an entity is tracked and in the radius of a view. -/
def ReplicationGraph.inView (inRadius : Vec3 → Vec3 → F32 → Bool)
    (graph : ReplicationGraph Vec3 F32) (view : ClientView Vec3 F32) (id : EntityId) : Bool :=
  match graph.entities[id]? with
  | some entry => inRadius entry.position view.position view.radius
  | none => false

/-- Whether the world has an update for an entity that the client knows and sees. -/
def ReplicationGraph.updatable (inRadius : Vec3 → Vec3 → F32 → Bool)
    (graph : ReplicationGraph Vec3 F32) (state : ClientState Vec3 F32) (world : WorldView)
    (id : EntityId) : Bool :=
  graph.inView inRadius state.view id ∧ id ∈ state.knownEntities
    ∧ (graph.updateOf world id).isSome

/-- Whether an entity is out of sight or has been removed. -/
def ReplicationGraph.leaving (inRadius : Vec3 → Vec3 → F32 → Bool)
    (graph : ReplicationGraph Vec3 F32) (state : ClientState Vec3 F32) (id : EntityId) : Bool :=
  ¬ graph.inView inRadius state.view id ∨ id ∈ graph.removedEntities

/-- Tracked entities in order. -/
theorem keys_ascend {β : Type} (entities : Std.TreeMap EntityId β) :
    entities.keys.Pairwise fun a b => a.raw < b.raw :=
  Std.TreeMap.ordered_keys.imp entity_compare_lt.mp

/-- Known entities in order. -/
theorem set_ascend (ids : Std.TreeSet EntityId) : ids.toList.Pairwise fun a b => a.raw < b.raw :=
  Std.TreeSet.ordered_toList.imp entity_compare_lt.mp

/-- The relevant entities are the tracked ones in view. -/
theorem relevant_eq (view : ClientView Vec3 F32) :
    graph.relevant inRadius view = graph.entities.keys.filter (graph.inView inRadius view) := by
  rw [ReplicationGraph.relevant, ← Std.TreeMap.map_fst_toList_eq_keys, List.filter_map]
  refine congrArg _ (List.filter_congr fun (id, entry) hentry => ?_)
  rw [Function.comp_apply, ReplicationGraph.inView,
    Std.TreeMap.mem_toList_iff_getElem?_eq_some.mp hentry]

theorem mem_relevant {view : ClientView Vec3 F32} {id : EntityId} :
    id ∈ graph.relevant inRadius view ↔ graph.inView inRadius view id := by
  rw [relevant_eq, List.mem_filter, Std.TreeMap.mem_keys]
  refine ⟨And.right, fun h => ⟨?_, h⟩⟩
  rw [ReplicationGraph.inView] at h
  rw [Std.TreeMap.mem_iff_isSome_getElem?]
  cases hentry : graph.entities[id]? with
  | none => simp [hentry] at h
  | some entry => rfl

/-- An update that is taken for an entity is the world's for its dirty components, and names it. -/
theorem updateOf_eq_some (hworld : world.Named) {id : EntityId} {u : DeltaUpdateEntity} :
    graph.updateOf world id = some u
      ↔ u.id = id ∧ ∃ entry, graph.entities[id]? = some entry ∧ entry.dirtyComponents ≠ []
        ∧ world.update id entry.dirtyComponents = some u := by
  rw [ReplicationGraph.updateOf]
  cases hentry : graph.entities[id]? with
  | none => simp
  | some entry =>
      by_cases hdirty : entry.dirtyComponents = []
      · simp [hdirty]
      · simp only [List.isEmpty_iff, hdirty, if_false, Option.some.injEq, exists_eq_left', ne_eq,
          not_false_eq_true, true_and]
        exact ⟨fun h => ⟨hworld.update _ _ _ h, h⟩, And.right⟩

/-- The updates of a delta before the budget is applied. -/
theorem mem_pending_updates (hworld : world.Named) {u : DeltaUpdateEntity} :
    u ∈ (graph.pendingDelta inRadius state world).updates
      ↔ graph.inView inRadius state.view u.id ∧ u.id ∈ state.knownEntities
        ∧ graph.updateOf world u.id = some u := by
  rw [ReplicationGraph.pendingDelta, List.mem_filterMap]
  constructor
  · rintro ⟨id, hid, hu⟩
    by_cases hknown : id ∈ state.knownEntities
    · rw [if_pos hknown] at hu
      obtain ⟨rfl, -⟩ := (updateOf_eq_some hworld).mp hu
      exact ⟨mem_relevant.mp hid, hknown, hu⟩
    · rw [if_neg hknown] at hu
      cases hu
  · rintro ⟨hview, hknown, hu⟩
    exact ⟨u.id, mem_relevant.mpr hview, by rw [if_pos hknown, hu]⟩

/-- The entities created are the ones in view that the client does not know. -/
theorem pending_creates_ids (hworld : world.Named) :
    (graph.pendingDelta inRadius state world).creates.map EntitySnapshot.id
      = (graph.relevant inRadius state.view).filter fun id => id ∉ state.knownEntities := by
  rw [ReplicationGraph.pendingDelta, List.map_filterMap, ← List.filterMap_eq_filter]
  refine List.filterMap_congr fun id _ => ?_
  by_cases hknown : id ∈ state.knownEntities
  · simp [hknown, Option.guard]
  · simp [hknown, Option.guard, hworld.snapshot]

/-- The entities updated are the ones that the client knows and sees and the world has an update
for. -/
theorem pending_updates_ids (hworld : world.Named) :
    (graph.pendingDelta inRadius state world).updates.map DeltaUpdateEntity.id
      = graph.entities.keys.filter (graph.updatable inRadius state world) := by
  have hupdatable : graph.entities.keys.filter (graph.updatable inRadius state world)
      = (graph.relevant inRadius state.view).filter fun id =>
        id ∈ state.knownEntities ∧ (graph.updateOf world id).isSome := by
    rw [relevant_eq, List.filter_filter]
    refine List.filter_congr fun id _ => ?_
    rw [ReplicationGraph.updatable, Bool.eq_iff_iff]
    simp [and_comm, and_left_comm]
  rw [hupdatable, ReplicationGraph.pendingDelta, List.map_filterMap, ← List.filterMap_eq_filter]
  refine List.filterMap_congr fun id _ => ?_
  by_cases hknown : id ∈ state.knownEntities
  · cases hupdate : graph.updateOf world id with
    | none => simp [hknown, hupdate, Option.guard]
    | some u =>
        simp [hknown, hupdate, Option.guard, ((updateOf_eq_some hworld).mp hupdate).1]
  · simp [hknown, Option.guard]

/-- The entities destroyed are the known ones that are out of sight or have been removed. -/
theorem pending_destroys_eq :
    (graph.pendingDelta inRadius state world).destroys
      = state.knownEntities.toList.filter (graph.leaving inRadius state) := by
  have hknown := set_ascend state.knownEntities
  have hremoved := set_ascend graph.removedEntities
  have hne {a b : EntityId} (h : a.raw < b.raw) : a ≠ b := by
    rintro rfl
    exact UInt32.lt_irrefl _ h
  have htotal : Std.Total fun a b : EntityId => a.raw ≤ b.raw := ⟨fun a b => UInt32.le_total _ _⟩
  have htrans : IsTrans EntityId fun a b => a.raw ≤ b.raw := ⟨fun a b c => UInt32.le_trans⟩
  have hperm := List.perm_insertionSort (fun a b : EntityId => a.raw ≤ b.raw)
    ((state.knownEntities.toList.filter fun id => id ∉ graph.relevant inRadius state.view)
      ++ graph.removedEntities.toList.filter fun id => id ∈ state.knownEntities
        ∧ id ∉ state.knownEntities.toList.filter fun id =>
          id ∉ graph.relevant inRadius state.view)
  have hnodup := hperm.nodup_iff.mpr (List.nodup_append.mpr
    ⟨(hknown.imp hne).filter _, (hremoved.imp hne).filter _, fun a ha b hb => by
      rintro rfl
      simp_all⟩)
  refine @eq_of_mem_iff _ _ _ _ _ EntityId.raw _ _ ?_ (hknown.filter _) fun id => ?_
  · rw [ReplicationGraph.pendingDelta]
    refine (List.pairwise_insertionSort (fun a b : EntityId => a.raw ≤ b.raw) _).imp₂
      (fun {a b} hle hne => ?_) hnodup
    exact UInt32.lt_of_le_of_ne hle fun h => hne (entity_id_eq h)
  · rw [ReplicationGraph.pendingDelta, hperm.mem_iff]
    simp only [List.mem_append, List.mem_filter, Std.TreeSet.mem_toList, mem_relevant,
      ReplicationGraph.leaving, decide_eq_true_eq]
    tauto

/-! ## The known entities -/

theorem mem_foldl_erase (ids : List EntityId) (known : Std.TreeSet EntityId) (id : EntityId) :
    id ∈ ids.foldl Std.TreeSet.erase known ↔ id ∈ known ∧ id ∉ ids := by
  induction ids generalizing known with
  | nil => simp
  | cons x ids ih =>
      rw [List.foldl_cons, ih, Std.TreeSet.mem_erase, List.mem_cons, ne_eq,
        Std.LawfulEqCmp.compare_eq_iff_eq, @eq_comm _ x id]
      tauto

theorem mem_foldl_insert (creates : List EntitySnapshot) (known : Std.TreeSet EntityId)
    (id : EntityId) :
    id ∈ creates.foldl (fun known create => known.insert create.id) known
      ↔ id ∈ known ∨ id ∈ creates.map EntitySnapshot.id := by
  induction creates generalizing known with
  | nil => simp
  | cons x creates ih =>
      rw [List.foldl_cons, ih, Std.TreeSet.mem_insert, List.map_cons, List.mem_cons,
        Std.LawfulEqCmp.compare_eq_iff_eq, @eq_comm _ x.id id]
      tauto

/-- The entities that the graph takes a client to know. -/
def ReplicationGraph.known (graph : ReplicationGraph Vec3 F32) (client : ClientId) :
    Std.TreeSet EntityId :=
  match graph.clients[client]? with
  | some state => state.knownEntities
  | none => ∅

/-- What one build does: the delta is the pending one within the budget, the client's known entities
change by what the delta destroys and creates, and nothing else changes. -/
structure Builds (inRadius : Vec3 → Vec3 → F32 → Bool) (graph : ReplicationGraph Vec3 F32)
    (state : ClientState Vec3 F32) (world : WorldView) (client : ClientId) (delta : ClientDelta)
    (next : ReplicationGraph Vec3 F32) : Prop where
  pending : delta = applyBudget (graph.pendingDelta inRadius state world) state.view.budget
  entities : next.entities = graph.entities
  removed : next.removedEntities = graph.removedEntities
  view : next.clients[client]?.map ClientState.view = some state.view
  known : ∀ id, id ∈ next.known client
    ↔ id ∈ state.knownEntities ∧ id ∉ delta.destroys ∨ id ∈ delta.creates.map EntitySnapshot.id
  others : ∀ other, other ≠ client → next.clients[other]? = graph.clients[other]?

theorem build_client_delta_of_some {client : ClientId}
    (hstate : graph.clients[client]? = some state) :
    Builds inRadius graph state world client (graph.buildClientDelta inRadius client world).1
      (graph.buildClientDelta inRadius client world).2 := by
  rw [ReplicationGraph.buildClientDelta, hstate]
  refine ⟨rfl, rfl, rfl, ?_, fun id => ?_, fun other hne => ?_⟩
  · rw [Std.TreeMap.getElem?_insert_self]
    rfl
  · rw [ReplicationGraph.known, Std.TreeMap.getElem?_insert_self]
    exact (mem_foldl_insert _ _ id).trans (or_congr_left (mem_foldl_erase _ _ id))
  · simp [Std.TreeMap.getElem?_insert, hne.symm]

theorem build_client_delta_of_none {client : ClientId} (hstate : graph.clients[client]? = none) :
    graph.buildClientDelta inRadius client world = (⟨[], [], []⟩, graph) := by
  rw [ReplicationGraph.buildClientDelta, hstate]

/-! ## Applicable deltas -/

/-- A delta that fits what a client knows: it destroys and updates known entities, it updates none
that it destroys, it creates unknown ones, and it leaves the client with `next` as its known
entities. -/
structure Applicable (known next : Std.TreeSet EntityId) (delta : ClientDelta) : Prop where
  destroys_known : ∀ id ∈ delta.destroys, id ∈ known
  creates_unknown : ∀ create ∈ delta.creates, create.id ∉ known
  updates_known : ∀ update ∈ delta.updates, update.id ∈ known
  updates_kept : ∀ update ∈ delta.updates, update.id ∉ delta.destroys
  destroys_ascend : delta.destroys.Pairwise fun a b => a.raw < b.raw
  creates_ascend : delta.creates.Pairwise fun a b => a.id.raw < b.id.raw
  updates_ascend : delta.updates.Pairwise fun a b => a.id.raw < b.id.raw
  next_known : ∀ id, id ∈ next
    ↔ id ∈ known ∧ id ∉ delta.destroys ∨ id ∈ delta.creates.map EntitySnapshot.id

/-- The entities that hold a set of ids, in order. -/
structure Mirrors (known : Std.TreeSet EntityId) (mirror : List EntitySnapshot) : Prop where
  ascending : Ascending mirror
  mem : ∀ id, id ∈ mirror.map EntitySnapshot.id ↔ id ∈ known

/-- The destroys and creates of a delta that fits apply, and leave the entities that are kept and
the ones that are created. -/
theorem Applicable.apply_passes {known next : Std.TreeSet EntityId} {delta : ClientDelta}
    {mirror : List EntitySnapshot} (h : Applicable known next delta)
    (hmirror : Mirrors known mirror) :
    ∃ remaining merged, Delta.applyDestroys mirror delta.destroys = .ok remaining
      ∧ Delta.applyCreates remaining delta.creates = .ok merged ∧ Mirrors next merged
      ∧ ∀ e, e ∈ merged ↔ e ∈ mirror ∧ e.id ∉ delta.destroys ∨ e ∈ delta.creates := by
  have hthere {id : EntityId} (hid : id ∈ known) : ∃ b ∈ mirror, b.id = id :=
    List.mem_map.mp ((hmirror.mem id).mpr hid)
  obtain ⟨remaining, hdestroy, hremaining, hmem⟩ := apply_destroys_of_mem hmirror.ascending
    h.destroys_ascend fun d hd => hthere (h.destroys_known d hd)
  obtain ⟨merged, hcreate, hmerged, hmem'⟩ := apply_creates_of_not_mem hremaining h.creates_ascend
    fun c hc b hb hbc => h.creates_unknown c hc
      ((hmirror.mem _).mp (hbc ▸ List.mem_map_of_mem ((hmem b).mp hb).1))
  have hfound (e : EntitySnapshot) :
      e ∈ merged ↔ e ∈ mirror ∧ e.id ∉ delta.destroys ∨ e ∈ delta.creates := by rw [hmem', hmem]
  refine ⟨remaining, merged, hdestroy, hcreate, ⟨hmerged, fun id => ?_⟩, hfound⟩
  rw [h.next_known, List.mem_map]
  constructor
  · rintro ⟨e, he, rfl⟩
    rcases (hfound e).mp he with ⟨hin, hout⟩ | he
    · exact .inl ⟨(hmirror.mem _).mp (List.mem_map_of_mem hin), hout⟩
    · exact .inr (List.mem_map_of_mem he)
  · rintro (⟨hin, hout⟩ | hin)
    · obtain ⟨e, he, rfl⟩ := hthere hin
      exact ⟨e, (hfound e).mpr (.inl ⟨he, hout⟩), rfl⟩
    · obtain ⟨e, he, rfl⟩ := List.mem_map.mp hin
      exact ⟨e, (hfound e).mpr (.inr he), rfl⟩

/-- Applying a delta that fits never misses an entity to destroy or update, nor creates one that is
there, and leaves the client with the entities it is then known to hold. -/
theorem Applicable.apply_ensures {known next : Std.TreeSet EntityId} {delta : ClientDelta}
    {mirror : List EntitySnapshot} (h : Applicable known next delta)
    (hmirror : Mirrors known mirror) :
    Ensures (applyChanges mirror delta.destroys delta.creates delta.updates) (Mirrors next)
      fun e => ¬ MisplacedEntity e := by
  obtain ⟨remaining, merged, hdestroy, hcreate, hnext, hfound⟩ := h.apply_passes hmirror
  rw [applyChanges, hdestroy]
  simp only [ok_bind, hcreate]
  refine (apply_updates_ensures hnext.ascending fun u hu => ?_).imp fun result hresult => ?_
  · obtain ⟨e, he, hid⟩ := List.mem_map.mp ((hmirror.mem _).mpr (h.updates_known u hu))
    exact ⟨e, (hfound e).mpr (.inl ⟨he, hid ▸ h.updates_kept u hu⟩), hid⟩
  · exact ⟨ascending_of_ids_eq hnext.ascending hresult, fun id => hresult ▸ hnext.mem id⟩

/-- A removed entity that is tracked again before the build, so that its client is told to destroy
it and to update it, within the budget of both lists. -/
def ReplicationGraph.Reused (inRadius : Vec3 → Vec3 → F32 → Bool)
    (graph : ReplicationGraph Vec3 F32) (state : ClientState Vec3 F32) (world : WorldView)
    (id : EntityId) : Prop :=
  id ∈ graph.removedEntities ∧ graph.updatable inRadius state world id
    ∧ (graph.entities.keys.filter fun a =>
      graph.updatable inRadius state world a ∧ a.raw < id.raw).length < state.view.budget.maxUpdates
    ∧ (state.knownEntities.toList.filter fun a =>
      graph.leaving inRadius state a ∧ a.raw < id.raw).length < state.view.budget.maxDestroys

section Budget

variable (inRadius graph state) (hworld : world.Named)

include hworld

/-- The entities that a build creates. -/
theorem creates_ids :
    (applyBudget (graph.pendingDelta inRadius state world) state.view.budget).creates.map
      EntitySnapshot.id
      = ((graph.relevant inRadius state.view).filter fun id => id ∉ state.knownEntities).take
        state.view.budget.maxCreates := by
  rw [applyBudget, List.map_take, pending_creates_ids hworld]

/-- The entities that a build updates. -/
theorem updates_ids :
    (applyBudget (graph.pendingDelta inRadius state world) state.view.budget).updates.map
      DeltaUpdateEntity.id
      = (graph.entities.keys.filter (graph.updatable inRadius state world)).take
        state.view.budget.maxUpdates := by
  rw [applyBudget, List.map_take, pending_updates_ids hworld]

omit hworld in
/-- The entities that a build destroys. -/
theorem destroys_eq (world : WorldView) :
    (applyBudget (graph.pendingDelta inRadius state world) state.view.budget).destroys
      = (state.knownEntities.toList.filter (graph.leaving inRadius state)).take
        state.view.budget.maxDestroys := by
  rw [applyBudget, pending_destroys_eq]

/-- An entity that a build both updates and destroys was removed and is tracked again. -/
theorem updated_and_destroyed_iff {id : EntityId} {delta : ClientDelta}
    (hdelta : delta = applyBudget (graph.pendingDelta inRadius state world) state.view.budget) :
    id ∈ delta.updates.map DeltaUpdateEntity.id ∧ id ∈ delta.destroys
      ↔ graph.Reused inRadius state world id := by
  have hu := (keys_ascend graph.entities).filter (graph.updatable inRadius state world)
  have hd := (set_ascend state.knownEntities).filter (graph.leaving inRadius state)
  rw [hdelta, updates_ids inRadius graph state hworld, destroys_eq, mem_take_iff hu,
    mem_take_iff hd, List.filter_filter, List.filter_filter, List.mem_filter, List.mem_filter,
    Std.TreeSet.mem_toList, Std.TreeMap.mem_keys, ReplicationGraph.Reused]
  simp only [Bool.decide_and, Bool.decide_eq_true, @Bool.and_comm (decide (_ < _))]
  constructor
  · rintro ⟨⟨⟨-, hupdatable⟩, hrank⟩, ⟨-, hleaving⟩, hrank'⟩
    have hview : graph.inView inRadius state.view id := by
      simp only [ReplicationGraph.updatable, decide_eq_true_eq] at hupdatable
      exact hupdatable.1
    simp only [ReplicationGraph.leaving, decide_eq_true_eq] at hleaving
    exact ⟨hleaving.resolve_left fun hno => hno hview, hupdatable, hrank, hrank'⟩
  · rintro ⟨hremoved, hupdatable, hrank, hrank'⟩
    have hparts := hupdatable
    simp only [ReplicationGraph.updatable, decide_eq_true_eq] at hparts
    have hrelevant := mem_relevant.mpr hparts.1
    rw [relevant_eq] at hrelevant
    refine ⟨⟨⟨Std.TreeMap.mem_keys.mp (List.mem_of_mem_filter hrelevant), hupdatable⟩, hrank⟩,
      ⟨hparts.2.1, ?_⟩, hrank'⟩
    simp only [ReplicationGraph.leaving, decide_eq_true_eq]
    exact .inr hremoved

variable {inRadius graph state}

/-- The delta of a build fits what its client knows exactly when no entity has been reused. -/
theorem build_applicable_iff {client : ClientId} (hstate : graph.clients[client]? = some state) :
    Applicable (graph.known client) ((graph.buildClientDelta inRadius client world).2.known client)
        (graph.buildClientDelta inRadius client world).1
      ↔ ∀ id, ¬ graph.Reused inRadius state world id := by
  have hbuild : Builds inRadius graph state world client _ _ := build_client_delta_of_some hstate
  generalize graph.buildClientDelta inRadius client world = built at hbuild ⊢
  obtain ⟨delta, next⟩ := built
  have hbefore : graph.known client = state.knownEntities := by rw [ReplicationGraph.known, hstate]
  rw [hbefore]
  refine ⟨fun h id hreused => ?_, fun hno => ?_⟩
  · obtain ⟨hupdated, hdestroyed⟩ :=
      (updated_and_destroyed_iff inRadius graph state hworld hbuild.pending).mpr hreused
    obtain ⟨u, hu, rfl⟩ := List.mem_map.mp hupdated
    exact h.updates_kept u hu hdestroyed
  · have hcreates := creates_ids inRadius graph state hworld
    have hupdates := updates_ids inRadius graph state hworld
    have hdestroys := destroys_eq inRadius graph state world
    rw [← hbuild.pending] at hcreates hupdates hdestroys
    have hrelevant : (graph.relevant inRadius state.view).Pairwise fun a b => a.raw < b.raw := by
      rw [relevant_eq]
      exact (keys_ascend graph.entities).filter _
    refine ⟨fun id hid => ?_, fun c hc hknown => ?_, fun u hu => ?_, fun u hu hdestroyed => ?_, ?_,
      ?_, ?_, hbuild.known⟩
    · rw [hdestroys] at hid
      exact Std.TreeSet.mem_toList.mp (List.mem_of_mem_filter (List.mem_of_mem_take hid))
    · have hin := List.mem_map_of_mem hc (f := EntitySnapshot.id)
      rw [hcreates] at hin
      exact of_decide_eq_true (List.mem_filter.mp (List.mem_of_mem_take hin)).2 hknown
    · have hin := List.mem_map_of_mem hu (f := DeltaUpdateEntity.id)
      rw [hupdates] at hin
      have hupdatable := (List.mem_filter.mp (List.mem_of_mem_take hin)).2
      simp only [ReplicationGraph.updatable, decide_eq_true_eq] at hupdatable
      exact hupdatable.2.1
    · exact hno u.id ((updated_and_destroyed_iff inRadius graph state hworld hbuild.pending).mp
        ⟨List.mem_map_of_mem hu, hdestroyed⟩)
    · rw [hdestroys]
      exact ((set_ascend _).filter _).sublist (List.take_sublist _ _)
    · have hids : (delta.creates.map EntitySnapshot.id).Pairwise fun a b => a.raw < b.raw := by
        rw [hcreates]
        exact (hrelevant.filter _).sublist (List.take_sublist _ _)
      exact (List.pairwise_map (R := fun (a b : EntityId) => a.raw < b.raw)).mp hids
    · have hids : (delta.updates.map DeltaUpdateEntity.id).Pairwise fun a b => a.raw < b.raw := by
        rw [hupdates]
        exact ((keys_ascend _).filter _).sublist (List.take_sublist _ _)
      exact (List.pairwise_map (R := fun (a b : EntityId) => a.raw < b.raw)).mp hids

end Budget

end Sdec.Repgraph
