import Sdec.Repgraph.Run

/-!
# Ticks of the replication graph

The flow per tick: requests change what the graph tracks, then a delta is built for every client,
then the dirty flags and the pending removals are cleared. The requests of a tick are followed by
what they make of one entity, and the builds by what they make of one client.
-/

namespace Sdec.Repgraph

open Rust

variable {Vec3 F32 : Type} {inRadius : Vec3 → Vec3 → F32 → Bool}
  {graph : ReplicationGraph Vec3 F32}

/-- What happens in a tick: the requests, the world that the deltas are built from, and the clients
in the order in which they are built. -/
structure Tick (Vec3 F32 : Type) where
  requests : List (Request Vec3 F32)
  world : WorldView
  clients : List ClientId

/-- The graph that the builds of a tick start from. -/
def Tick.prepare (tick : Tick Vec3 F32) (graph : ReplicationGraph Vec3 F32) :
    ReplicationGraph Vec3 F32 :=
  tick.requests.foldl ReplicationGraph.handle graph

/-- The deltas of one build for each client, and the graph behind them. -/
def buildAll (inRadius : Vec3 → Vec3 → F32 → Bool) (world : WorldView)
    (graph : ReplicationGraph Vec3 F32) :
    List ClientId → List (ClientId × ClientDelta) × ReplicationGraph Vec3 F32
  | [] => ([], graph)
  | client :: clients =>
      let (delta, graph) := graph.buildClientDelta inRadius client world
      let (deltas, graph) := buildAll inRadius world graph clients
      ((client, delta) :: deltas, graph)

/-- The deltas of a tick. -/
def Tick.deltas (inRadius : Vec3 → Vec3 → F32 → Bool) (tick : Tick Vec3 F32)
    (graph : ReplicationGraph Vec3 F32) : List (ClientId × ClientDelta) :=
  (buildAll inRadius tick.world (tick.prepare graph) tick.clients).1

/-- The graph after a tick. -/
def Tick.finish (inRadius : Vec3 → Vec3 → F32 → Bool) (graph : ReplicationGraph Vec3 F32)
    (tick : Tick Vec3 F32) : ReplicationGraph Vec3 F32 :=
  (buildAll inRadius tick.world (tick.prepare graph) tick.clients).2.clearDirty.clearRemoved

/-- Every client is built once. -/
structure Tick.Complete (tick : Tick Vec3 F32) (graph : ReplicationGraph Vec3 F32) : Prop where
  nodup : tick.clients.Nodup
  all : ∀ client, client ∈ tick.clients ↔ client ∈ (tick.prepare graph).clients

theorem complete_of_keys {tick : Tick Vec3 F32} {graph : ReplicationGraph Vec3 F32}
    (hnodup : tick.clients.Nodup) (hkeys : (tick.prepare graph).clients.keys = tick.clients) :
    tick.Complete graph where
  nodup := hnodup
  all client := by rw [← Std.TreeMap.mem_keys, hkeys]

/-! ## Requests -/

/-- The dirty components that requests list for an entity, each once, after those listed before. -/
def marksFrom (id : EntityId) (dirty : List ComponentId) :
    List (Request Vec3 F32) → List ComponentId
  | [] => dirty
  | .updateEntity entity _ components :: requests =>
      if entity = id then marksFrom id (pushUniqueComponents dirty components) requests
      else marksFrom id dirty requests
  | _ :: requests => marksFrom id dirty requests

/-- The dirty components that requests list for an entity. -/
def marks (id : EntityId) (requests : List (Request Vec3 F32)) : List ComponentId :=
  marksFrom id [] requests

theorem mem_push_unique {target components : List ComponentId} {c : ComponentId} :
    c ∈ pushUniqueComponents target components ↔ c ∈ target ∨ c ∈ components := by
  rw [pushUniqueComponents]
  induction components generalizing target with
  | nil => simp
  | cons x components ih =>
      rw [List.foldl_cons, ih, List.mem_cons]
      split
      · rename_i hx
        constructor
        · rintro (h | h)
          · exact .inl h
          · exact .inr (.inr h)
        · rintro (h | rfl | h)
          · exact .inl h
          · exact .inl hx
          · exact .inr h
      · rw [List.mem_append, List.mem_singleton, or_assoc]

/-- Listing a component for an entity marks it. -/
theorem mem_marks_from {id : EntityId} {dirty : List ComponentId}
    {requests : List (Request Vec3 F32)} {c : ComponentId} :
    c ∈ marksFrom id dirty requests
      ↔ c ∈ dirty ∨ ∃ position components, .updateEntity id position components ∈ requests
        ∧ c ∈ components := by
  induction requests generalizing dirty with
  | nil => simp [marksFrom]
  | cons request requests ih =>
      cases request with
      | updateEntity entity position components =>
          rw [marksFrom]
          by_cases heq : entity = id
          · subst heq
            rw [if_pos rfl, ih, mem_push_unique]
            simp only [List.mem_cons, Request.updateEntity.injEq, true_and]
            constructor
            · rintro ((h | h) | ⟨p, d, hmem, hc⟩)
              · exact .inl h
              · exact .inr ⟨position, components, .inl ⟨rfl, rfl⟩, h⟩
              · exact .inr ⟨p, d, .inr hmem, hc⟩
            · rintro (h | ⟨p, d, ⟨rfl, rfl⟩ | hmem, hc⟩)
              · exact .inl (.inl h)
              · exact .inl (.inr hc)
              · exact .inr ⟨p, d, hmem, hc⟩
          · rw [if_neg heq, ih]
            simp [@eq_comm _ id entity, heq]
      | removeEntity entity => simp [marksFrom, ih]
      | setEntityPriority entity priority => simp [marksFrom, ih]
      | upsertClient client view => simp [marksFrom, ih]
      | removeClient client => simp [marksFrom, ih]

/-- A request that does not remove a tracked entity keeps it tracked and adds to its dirty
components what it lists for it. -/
theorem handle_entity {id : EntityId} {entry : EntityEntry Vec3} {request : Request Vec3 F32}
    {requests : List (Request Vec3 F32)}
    (hentry : graph.entities[id]? = some entry) (hkeep : request ≠ .removeEntity id) :
    ∃ entry', (graph.handle request).entities[id]? = some entry'
      ∧ marksFrom id entry.dirtyComponents (request :: requests)
        = marksFrom id entry'.dirtyComponents requests := by
  have hmem : id ∈ graph.entities := by
    rw [Std.TreeMap.mem_iff_isSome_getElem?, hentry]
    rfl
  cases request with
  | updateEntity entity position components =>
      rw [ReplicationGraph.handle, ReplicationGraph.updateEntity, marksFrom]
      by_cases heq : entity = id
      · subst heq
        rw [if_neg (fun h => h.2 hmem), if_pos rfl]
        refine ⟨_, Std.TreeMap.getElem?_insert_self, ?_⟩
        rw [Std.TreeMap.getD_eq_getD_getElem?, hentry]
        rfl
      · refine ⟨entry, ?_, if_neg heq⟩
        split
        · exact hentry
        · simp [Std.TreeMap.getElem?_insert, heq, hentry]
  | removeEntity entity =>
      have hne : entity ≠ id := fun h => hkeep (h ▸ rfl)
      exact ⟨entry, by simp [ReplicationGraph.handle, ReplicationGraph.removeEntity,
        Std.TreeMap.getElem?_erase, hne, hentry], rfl⟩
  | setEntityPriority entity priority =>
      by_cases heq : entity = id
      · exact ⟨{ entry with priority }, by simp [ReplicationGraph.handle,
          ReplicationGraph.setEntityPriority, heq, hentry], rfl⟩
      · exact ⟨entry, by simp [ReplicationGraph.handle,
          ReplicationGraph.setEntityPriority, Std.TreeMap.getElem?_modify, heq, hentry], rfl⟩
  | upsertClient client view => exact ⟨entry, hentry, rfl⟩
  | removeClient client => exact ⟨entry, hentry, rfl⟩

/-- Requests that do not remove a tracked entity keep it tracked, with the dirty components that
they list for it. -/
theorem handle_all_entity {id : EntityId} {entry : EntityEntry Vec3}
    {requests : List (Request Vec3 F32)}
    (hentry : graph.entities[id]? = some entry) (hkeep : .removeEntity id ∉ requests) :
    ∃ entry', (requests.foldl ReplicationGraph.handle graph).entities[id]? = some entry'
      ∧ entry'.dirtyComponents = marksFrom id entry.dirtyComponents requests := by
  induction requests generalizing graph entry with
  | nil => exact ⟨entry, hentry, rfl⟩
  | cons request requests ih =>
      have hkeep := not_or.mp (List.mem_cons.not.mp hkeep)
      obtain ⟨entry₁, hentry₁, hmarks⟩ :=
        @handle_entity _ _ _ _ _ _ requests hentry (Ne.symm hkeep.1)
      obtain ⟨entry₂, hentry₂, hdirty⟩ := ih hentry₁ hkeep.2
      exact ⟨entry₂, hentry₂, hdirty.trans hmarks.symm⟩

/-- A request that does not remove a client leaves what it is known to hold. -/
theorem handle_known {client : ClientId} {request : Request Vec3 F32}
    (hkeep : request ≠ .removeClient client) :
    (graph.handle request).known client = graph.known client := by
  cases request with
  | updateEntity entity position components =>
      rw [ReplicationGraph.handle, ReplicationGraph.updateEntity]
      split <;> rfl
  | removeEntity entity => rfl
  | setEntityPriority entity priority => rfl
  | upsertClient other view =>
      simp only [ReplicationGraph.known, ReplicationGraph.handle, ReplicationGraph.upsertClient,
        Std.TreeMap.getElem?_insert, Std.LawfulEqCmp.compare_eq_iff_eq,
        Std.TreeMap.getD_eq_getD_getElem?]
      by_cases heq : other = client
      · subst heq
        rw [if_pos rfl]
        cases graph.clients[other]? <;> rfl
      · rw [if_neg heq]
  | removeClient other =>
      have hne : other ≠ client := fun h => hkeep (h ▸ rfl)
      simp [ReplicationGraph.known, ReplicationGraph.handle, ReplicationGraph.removeClient,
        Std.TreeMap.getElem?_erase, hne]

theorem handle_all_known {client : ClientId} {requests : List (Request Vec3 F32)}
    (hkeep : .removeClient client ∉ requests) :
    (requests.foldl ReplicationGraph.handle graph).known client = graph.known client := by
  induction requests generalizing graph with
  | nil => rfl
  | cons request requests ih =>
      have hkeep := not_or.mp (List.mem_cons.not.mp hkeep)
      rw [List.foldl_cons, ih hkeep.2, handle_known (Ne.symm hkeep.1)]

/-! ## Builds -/

variable {world : WorldView}

/-- A build for a client looks at the entities, the removals and that client. -/
theorem build_client_delta_congr {graph' : ReplicationGraph Vec3 F32} {client : ClientId}
    (hentities : graph'.entities = graph.entities)
    (hremoved : graph'.removedEntities = graph.removedEntities)
    (hclient : graph'.clients[client]? = graph.clients[client]?) :
    (graph'.buildClientDelta inRadius client world).1
      = (graph.buildClientDelta inRadius client world).1
      ∧ (graph'.buildClientDelta inRadius client world).2.clients[client]?
        = (graph.buildClientDelta inRadius client world).2.clients[client]? := by
  have hpending (state : ClientState Vec3 F32) : graph'.pendingDelta inRadius state world
      = graph.pendingDelta inRadius state world := by
    cases graph'
    cases hentities
    cases hremoved
    rfl
  cases hstate : graph.clients[client]? with
  | none =>
      rw [build_client_delta_of_none hstate, build_client_delta_of_none (hclient.trans hstate)]
      exact ⟨rfl, hclient⟩
  | some state =>
      rw [ReplicationGraph.buildClientDelta, ReplicationGraph.buildClientDelta, hclient, hstate]
      simp only [hpending, Std.TreeMap.getElem?_insert_self, and_self]

/-- What builds for different clients do: each delta is the one of the graph before the builds, a
client that is built changes as in that build, and nothing else changes. -/
structure BuildsAll (inRadius : Vec3 → Vec3 → F32 → Bool) (world : WorldView)
    (graph : ReplicationGraph Vec3 F32) (clients : List ClientId)
    (built : List (ClientId × ClientDelta) × ReplicationGraph Vec3 F32) : Prop where
  deltas : built.1 = clients.map fun client =>
    (client, (graph.buildClientDelta inRadius client world).1)
  entities : built.2.entities = graph.entities
  removed : built.2.removedEntities = graph.removedEntities
  served : ∀ client ∈ clients, built.2.clients[client]?
    = (graph.buildClientDelta inRadius client world).2.clients[client]?
  others : ∀ client, client ∉ clients → built.2.clients[client]? = graph.clients[client]?

theorem build_client_delta_frame (client : ClientId) :
    let next := (graph.buildClientDelta inRadius client world).2
    next.entities = graph.entities ∧ next.removedEntities = graph.removedEntities
      ∧ ∀ other, other ≠ client → next.clients[other]? = graph.clients[other]? := by
  cases hstate : graph.clients[client]? with
  | none =>
      rw [build_client_delta_of_none hstate]
      exact ⟨rfl, rfl, fun _ _ => rfl⟩
  | some state =>
      have hbuild : Builds inRadius graph state world client _ _ :=
        build_client_delta_of_some hstate
      exact ⟨hbuild.entities, hbuild.removed, hbuild.others⟩

theorem build_all_builds {clients : List ClientId} (hnodup : clients.Nodup) :
    BuildsAll inRadius world graph clients (buildAll inRadius world graph clients) := by
  induction clients generalizing graph with
  | nil =>
      exact ⟨rfl, rfl, rfl, fun client h => (nomatch h), fun client _ => rfl⟩
  | cons client clients ih =>
      obtain ⟨hout, hnodup⟩ := List.nodup_cons.mp hnodup
      obtain ⟨hentities, hremoved, hothers⟩ :=
        @build_client_delta_frame _ _ inRadius graph world client
      have hrest := @ih (graph.buildClientDelta inRadius client world).2 hnodup
      have hne {other : ClientId} (h : other ∈ clients) :
          other ≠ client := fun heq => hout (heq ▸ h)
      have hcongr {other : ClientId} (h : other ∈ clients) :=
        @build_client_delta_congr _ _ inRadius graph world _ other hentities hremoved
          (hothers other (hne h))
      refine ⟨?_, hrest.entities.trans hentities, hrest.removed.trans hremoved, fun other h => ?_,
        fun other h => ?_⟩
      · refine congrArg (_ :: ·) (hrest.deltas.trans ?_)
        exact List.map_congr_left fun other h => congrArg _ (hcongr h).1
      · rcases List.mem_cons.mp h with rfl | h
        · exact hrest.others _ hout
        · exact (hrest.served other h).trans (hcongr h).2
      · obtain ⟨hne', h⟩ := not_or.mp (List.mem_cons.not.mp h)
        exact (hrest.others other h).trans (hothers other hne')

/-! ## Between ticks -/

/-- No removal is pending and no entity is dirty. -/
structure Clean (graph : ReplicationGraph Vec3 F32) : Prop where
  removed : ∀ id, id ∉ graph.removedEntities
  dirty : ∀ (id : EntityId) (entry : EntityEntry Vec3),
    graph.entities[id]? = some entry → entry.dirtyComponents = []

theorem clean_new (config : ReplicationConfig) :
    Clean (ReplicationGraph.new config : ReplicationGraph Vec3 F32) where
  removed _ := Std.TreeSet.not_mem_emptyc
  dirty _ entry h := by simp [ReplicationGraph.new] at h

theorem clean_finish (tick : Tick Vec3 F32) (graph : ReplicationGraph Vec3 F32) :
    Clean (tick.finish inRadius graph) where
  removed _ := Std.TreeSet.not_mem_emptyc
  dirty id entry h := by
    rw [Tick.finish, ReplicationGraph.clearRemoved, ReplicationGraph.clearDirty,
      Std.TreeMap.getElem?_map, Option.map_eq_some_iff] at h
    obtain ⟨_, -, rfl⟩ := h
    rfl

/-- The graph after some ticks. -/
def runTicks (inRadius : Vec3 → Vec3 → F32 → Bool) (graph : ReplicationGraph Vec3 F32)
    (ticks : List (Tick Vec3 F32)) : ReplicationGraph Vec3 F32 :=
  ticks.foldl (Tick.finish inRadius) graph

theorem clean_run {ticks : List (Tick Vec3 F32)} (h : Clean graph) :
    Clean (runTicks inRadius graph ticks) := by
  rw [runTicks]
  rcases List.eq_nil_or_concat' ticks with rfl | ⟨ticks, tick, rfl⟩
  · exact h
  · rw [List.foldl_append]
    exact clean_finish _ _

/-! ## After a tick -/

variable {client : ClientId} {id : EntityId}

/-- A removal is pending when it was before, or is requested. -/
theorem handle_all_removed {requests : List (Request Vec3 F32)} :
    id ∈ (requests.foldl ReplicationGraph.handle graph).removedEntities
      ↔ id ∈ graph.removedEntities ∨ .removeEntity id ∈ requests := by
  induction requests generalizing graph with
  | nil => simp
  | cons request requests ih =>
      rw [List.foldl_cons, ih, List.mem_cons]
      cases request with
      | updateEntity entity position components =>
          have hsame : (graph.handle (.updateEntity entity position components)).removedEntities
              = graph.removedEntities := by
            rw [ReplicationGraph.handle, ReplicationGraph.updateEntity]
            split <;> rfl
          simp [hsame]
      | removeEntity entity =>
          simp only [ReplicationGraph.handle, ReplicationGraph.removeEntity, Std.TreeSet.mem_insert,
            Std.LawfulEqCmp.compare_eq_iff_eq, Request.removeEntity.injEq, @eq_comm _ entity id]
          tauto
      | setEntityPriority entity priority => simp [ReplicationGraph.handle,
          ReplicationGraph.setEntityPriority]
      | upsertClient client view => simp [ReplicationGraph.handle, ReplicationGraph.upsertClient]
      | removeClient client => simp [ReplicationGraph.handle, ReplicationGraph.removeClient]

/-- An entity in view is tracked. -/
theorem tracked_of_in_view {view : ClientView Vec3 F32} (h : graph.inView inRadius view id) :
    ∃ entry, graph.entities[id]? = some entry := by
  rw [ReplicationGraph.inView] at h
  cases hentry : graph.entities[id]? with
  | none => simp [hentry] at h
  | some entry => exact ⟨entry, rfl⟩

/-- After a tick a client is what the build for it left, in the graph that the builds started
from. -/
theorem finish_clients {tick : Tick Vec3 F32} (hcomplete : tick.Complete graph)
    (hmem : client ∈ tick.clients) :
    (tick.finish inRadius graph).clients[client]?
      = ((tick.prepare graph).buildClientDelta inRadius client tick.world).2.clients[client]? :=
  (build_all_builds hcomplete.nodup).served client hmem

theorem mem_clients {tick : Tick Vec3 F32} {state : ClientState Vec3 F32}
    (hcomplete : tick.Complete graph)
    (hstate : (tick.prepare graph).clients[client]? = some state) : client ∈ tick.clients := by
  rw [hcomplete.all, Std.TreeMap.mem_iff_isSome_getElem?, hstate]
  rfl

theorem state_of_mem {tick : Tick Vec3 F32} (hcomplete : tick.Complete graph)
    (hmem : client ∈ tick.clients) : ∃ state, (tick.prepare graph).clients[client]?
      = some state := by
  rw [hcomplete.all, Std.TreeMap.mem_iff_isSome_getElem?] at hmem
  exact Option.isSome_iff_exists.mp hmem

/-- A client that is not built is not there. -/
theorem finish_clients_of_not_mem {tick : Tick Vec3 F32} (hcomplete : tick.Complete graph)
    (hmem : client ∉ tick.clients) :
    (tick.finish inRadius graph).clients[client]? = none
      ∧ (tick.prepare graph).clients[client]? = none := by
  have hnone : (tick.prepare graph).clients[client]? = none := by
    rw [hcomplete.all, Std.TreeMap.mem_iff_isSome_getElem?] at hmem
    simpa using hmem
  exact ⟨((build_all_builds hcomplete.nodup).others client hmem).trans hnone, hnone⟩

/-- The builds keep the view of a client. -/
theorem finish_view {tick : Tick Vec3 F32} {state : ClientState Vec3 F32}
    (hcomplete : tick.Complete graph)
    (hfinal : (tick.finish inRadius graph).clients[client]? = some state) :
    ∃ start, (tick.prepare graph).clients[client]? = some start ∧ start.view = state.view := by
  by_cases hmem : client ∈ tick.clients
  · obtain ⟨start, hstart⟩ := state_of_mem hcomplete hmem
    have hbuild : Builds inRadius (tick.prepare graph) start tick.world client _ _ :=
      build_client_delta_of_some hstart
    have hview := hbuild.view
    rw [← finish_clients hcomplete hmem, hfinal] at hview
    exact ⟨start, hstart, (Option.some.inj hview).symm⟩
  · rw [(finish_clients_of_not_mem hcomplete hmem).1] at hfinal
    cases hfinal

/-- A known entity that a client sees, and that is not removed, is still known after the tick. -/
theorem known_finish {tick : Tick Vec3 F32} {state : ClientState Vec3 F32}
    (hcomplete : tick.Complete graph) (hstate : (tick.prepare graph).clients[client]? = some state)
    (hview : (tick.prepare graph).inView inRadius state.view id) (hknown : id ∈ state.knownEntities)
    (hremoved : id ∉ (tick.prepare graph).removedEntities) :
    id ∈ (tick.finish inRadius graph).known client := by
  have hbuild : Builds inRadius (tick.prepare graph) state tick.world client _ _ :=
    build_client_delta_of_some hstate
  have hnext := hbuild.known id
  rw [ReplicationGraph.known, finish_clients hcomplete (mem_clients hcomplete hstate),
    ← ReplicationGraph.known, hnext, hbuild.pending, destroys_eq]
  refine .inl ⟨hknown, fun hdestroyed => ?_⟩
  have hleaving := (List.mem_filter.mp (List.mem_of_mem_take hdestroyed)).2
  simp only [ReplicationGraph.leaving, decide_eq_true_eq] at hleaving
  exact hleaving.elim (fun hno => hno hview) hremoved

theorem finish_entities (tick : Tick Vec3 F32) (hcomplete : tick.Complete graph) :
    (tick.finish inRadius graph).entities[id]?
      = (tick.prepare graph).entities[id]?.map fun entry =>
        { entry with dirtyComponents := [] } := by
  have hentities := (@build_all_builds _ _ inRadius (tick.prepare graph) tick.world _
    hcomplete.nodup).entities
  rw [Tick.finish, ReplicationGraph.clearRemoved, ReplicationGraph.clearDirty,
    Std.TreeMap.getElem?_map, hentities]

end Sdec.Repgraph
