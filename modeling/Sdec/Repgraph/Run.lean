import Sdec.Repgraph.Delta

/-!
# Runs of the replication graph

Any calls of the graph's interface in any order, and when every delta that a run builds fits the
client it is built for.
-/

namespace Sdec.Repgraph

open Rust

variable {Vec3 F32 : Type} {inRadius : Vec3 → Vec3 → F32 → Bool}

/-- The calls that change what the graph tracks and for whom. -/
inductive Request (Vec3 F32 : Type) where
  | updateEntity (entity : EntityId) (position : Vec3) (dirtyComponents : List ComponentId)
  | removeEntity (entity : EntityId)
  | setEntityPriority (entity : EntityId) (priority : UInt8)
  | upsertClient (client : ClientId) (view : ClientView Vec3 F32)
  | removeClient (client : ClientId)

/-- The graph after a request. -/
def ReplicationGraph.handle (graph : ReplicationGraph Vec3 F32) :
    Request Vec3 F32 → ReplicationGraph Vec3 F32
  | .updateEntity entity position dirty => graph.updateEntity entity position dirty
  | .removeEntity entity => graph.removeEntity entity
  | .setEntityPriority entity priority => graph.setEntityPriority entity priority
  | .upsertClient client view => graph.upsertClient client view
  | .removeClient client => graph.removeClient client

/-- A call of the graph's interface. -/
inductive Action (Vec3 F32 : Type) where
  | request (request : Request Vec3 F32)
  | build (client : ClientId) (world : WorldView)
  | clearDirty
  | clearRemoved

/-- The graph after a call. -/
def ReplicationGraph.act (inRadius : Vec3 → Vec3 → F32 → Bool) (graph : ReplicationGraph Vec3 F32) :
    Action Vec3 F32 → ReplicationGraph Vec3 F32
  | .request request => graph.handle request
  | .build client world => (graph.buildClientDelta inRadius client world).2
  | .clearDirty => graph.clearDirty
  | .clearRemoved => graph.clearRemoved

/-- The graphs that the calls of a run are made on, each with its call. -/
def history (inRadius : Vec3 → Vec3 → F32 → Bool) (graph : ReplicationGraph Vec3 F32) :
    List (Action Vec3 F32) → List (ReplicationGraph Vec3 F32 × Action Vec3 F32)
  | [] => []
  | action :: actions => (graph, action) :: history inRadius (graph.act inRadius action) actions

/-- The calls of a history are the calls of its run. -/
theorem mem_of_history {start graph : ReplicationGraph Vec3 F32} {action : Action Vec3 F32}
    {actions : List (Action Vec3 F32)} (h : (graph, action) ∈ history inRadius start actions) :
    action ∈ actions := by
  induction actions generalizing start with
  | nil => cases h
  | cons first actions ih =>
      rcases List.mem_cons.mp h with heq | h
      · cases heq
        exact List.mem_cons_self
      · exact List.mem_cons_of_mem _ (ih h)

/-- The delta of a build fits what its client knows, and a client that holds the entities it is
known to hold applies it without missing one. -/
def Fits (inRadius : Vec3 → Vec3 → F32 → Bool) (graph : ReplicationGraph Vec3 F32)
    (client : ClientId) (world : WorldView) : Prop :=
  let delta := (graph.buildClientDelta inRadius client world).1
  let next := (graph.buildClientDelta inRadius client world).2
  Applicable (graph.known client) (next.known client) delta
    ∧ ∀ mirror, Mirrors (graph.known client) mirror →
      Ensures (applyChanges mirror delta.destroys delta.creates delta.updates)
        (Mirrors (next.known client)) fun e => ¬ MisplacedEntity e

/-- A build for a client that knows a reused entity. -/
def Reuses (inRadius : Vec3 → Vec3 → F32 → Bool) (graph : ReplicationGraph Vec3 F32)
    (client : ClientId) (world : WorldView) : Prop :=
  ∃ state id, graph.clients[client]? = some state ∧ graph.Reused inRadius state world id

/-- The delta of a build fits exactly when the build reuses no entity. -/
theorem fits_iff {graph : ReplicationGraph Vec3 F32} {world : WorldView} (hworld : world.Named)
    {client : ClientId} : Fits inRadius graph client world
      ↔ ¬ Reuses inRadius graph client world := by
  have happlicable : Applicable (graph.known client)
      ((graph.buildClientDelta inRadius client world).2.known client)
      (graph.buildClientDelta inRadius client world).1 ↔ ¬ Reuses inRadius graph client world := by
    cases hstate : graph.clients[client]? with
    | none =>
        have hknown : graph.known client = ∅ := by rw [ReplicationGraph.known, hstate]
        rw [build_client_delta_of_none hstate, hknown]
        refine ⟨fun _ hreuses => ?_, fun _ => ?_⟩
        · obtain ⟨state, id, hsome, _⟩ := hreuses
          rw [hstate] at hsome
          cases hsome
        · constructor <;> simp
    | some state =>
        rw [build_applicable_iff hworld hstate]
        constructor
        · rintro hno ⟨state', id, hstate', hreused⟩
          rw [hstate] at hstate'
          cases hstate'
          exact hno id hreused
        · exact fun hno id hreused => hno ⟨state, id, hstate, hreused⟩
  rw [← happlicable]
  exact ⟨And.left, fun h => ⟨h, fun mirror hmirror => h.apply_ensures hmirror⟩⟩

/-- Every delta that a run builds fits its client exactly when no build of the run finds an entity
that was removed and tracked again since its client last heard of it. -/
theorem run_deltas_fit_iff (config : ReplicationConfig) (actions : List (Action Vec3 F32))
    (hworld : ∀ client world, .build client world ∈ actions → world.Named) :
    (∀ graph client world, (graph, .build client world) ∈ history inRadius (.new config) actions →
        Fits inRadius graph client world)
      ↔ ∀ graph client world, (graph, .build client world)
        ∈ history inRadius (.new config) actions →
        ¬ Reuses inRadius graph client world := by
  exact forall_congr' fun graph => forall_congr' fun client => forall_congr' fun world =>
    forall_congr' fun hbuild => fits_iff (hworld client world (mem_of_history hbuild))

/-! ### An entity that is removed and tracked again -/

/-- A line, with the squared distance of its points. -/
def lineRadius (position center radius : Int) : Bool :=
  (position - center) * (position - center) ≤ radius * radius

/-- A world of entities without fields, which updates what is dirty. -/
def plainWorld : WorldView where
  snapshot id := ⟨id, []⟩
  update id dirty := some ⟨id, dirty.map fun component => ⟨component, []⟩⟩

theorem plain_world_named : plainWorld.Named where
  snapshot _ := rfl
  update _ _ u h := by
    cases h
    rfl

/-- A client is sent an entity, which is then removed, tracked again and built again. -/
def reusingRun : List (Action Int Int) :=
  [.request (.upsertClient ⟨1⟩ ⟨0, 10, .unlimited⟩),
    .request (.updateEntity ⟨5⟩ 3 []),
    .build ⟨1⟩ plainWorld,
    .request (.removeEntity ⟨5⟩),
    .request (.updateEntity ⟨5⟩ 3 [⟨1, nonzero_one⟩]),
    .build ⟨1⟩ plainWorld]

theorem reusing_run_worlds_named (client : ClientId) (world : WorldView)
    (h : .build client world ∈ reusingRun) : world.Named := by
  simp only [reusingRun, List.mem_cons, Action.build.injEq, reduceCtorEq, List.not_mem_nil,
    or_false, false_or] at h
  rcases h with ⟨-, rfl⟩ | ⟨-, rfl⟩ <;> exact plain_world_named

/-- The graph before the last build of the run. -/
def reusingGraph : ReplicationGraph Int Int :=
  (reusingRun.take 5).foldl (ReplicationGraph.act lineRadius) (.new ⟨10⟩)

theorem reusing_graph_mem :
    (reusingGraph, .build ⟨1⟩ plainWorld) ∈ history lineRadius (.new ⟨10⟩) reusingRun := by
  simp only [reusingRun, history, List.mem_cons]
  exact .inr (.inr (.inr (.inr (.inr (.inl rfl)))))

/-- The last delta destroys the entity and updates it. -/
theorem reusing_build_does_not_fit : ¬ Fits lineRadius reusingGraph ⟨1⟩ plainWorld := fun h =>
  h.1.updates_kept ⟨⟨5⟩, [⟨⟨1, by decide⟩, []⟩]⟩ (by decide) (by decide)

theorem reusing_run_does_not_fit :
    ¬ ∀ graph client world,
      (graph, .build client world) ∈ history lineRadius (.new ⟨10⟩) reusingRun →
        Fits lineRadius graph client world :=
  fun h => reusing_build_does_not_fit (h _ _ _ reusing_graph_mem)

/-- A client is sent an entity, which is then changed and never removed. -/
def keepingRun : List (Action Int Int) :=
  [.request (.upsertClient ⟨1⟩ ⟨0, 10, .unlimited⟩),
    .request (.updateEntity ⟨5⟩ 3 []),
    .build ⟨1⟩ plainWorld,
    .request (.updateEntity ⟨5⟩ 3 [⟨1, nonzero_one⟩]),
    .build ⟨1⟩ plainWorld]

theorem keeping_run_worlds_named (client : ClientId) (world : WorldView)
    (h : .build client world ∈ keepingRun) : world.Named := by
  simp only [keepingRun, List.mem_cons, Action.build.injEq, reduceCtorEq, List.not_mem_nil,
    or_false, false_or] at h
  rcases h with ⟨-, rfl⟩ | ⟨-, rfl⟩ <;> exact plain_world_named

theorem not_reuses_of_empty {graph : ReplicationGraph Vec3 F32} {client : ClientId}
    {world : WorldView} (h : graph.removedEntities.toList = []) :
    ¬ Reuses inRadius graph client world := by
  rintro ⟨_, id, -, hremoved, -⟩
  rw [← Std.TreeSet.mem_toList, h] at hremoved
  cases hremoved

theorem keeping_run_reuses_none (graph : ReplicationGraph Int Int) (client : ClientId)
    (world : WorldView)
    (h : (graph, .build client world) ∈ history lineRadius (.new ⟨10⟩) keepingRun) :
    ¬ Reuses lineRadius graph client world := by
  simp only [keepingRun, history, List.mem_cons, Prod.mk.injEq, reduceCtorEq, List.not_mem_nil,
    or_false, false_or, and_false] at h
  rcases h with ⟨rfl, -⟩ | ⟨rfl, -⟩
  · exact not_reuses_of_empty (by decide)
  · exact not_reuses_of_empty (by decide)

/-- The first run reuses an entity, and every delta of the second one fits. -/
theorem run_deltas_fit_iff_reusing :
    (¬ ∀ graph client world,
      (graph, .build client world) ∈ history lineRadius (.new ⟨10⟩) reusingRun →
        ¬ Reuses lineRadius graph client world)
    ∧ ∀ graph client world,
      (graph, .build client world) ∈ history lineRadius (.new ⟨10⟩) keepingRun →
        Fits lineRadius graph client world :=
  ⟨(run_deltas_fit_iff ⟨10⟩ reusingRun reusing_run_worlds_named).not.mp fun h =>
      reusing_build_does_not_fit (h _ _ _ reusing_graph_mem),
    (run_deltas_fit_iff ⟨10⟩ keepingRun keeping_run_worlds_named).mpr keeping_run_reuses_none⟩

end Sdec.Repgraph
