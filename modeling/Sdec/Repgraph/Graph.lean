import Sdec.Codec.Types
import Mathlib.Data.List.Sort

/-!
# The replication graph

Tracked entities, client views and the deltas built for them, after `repgraph/src/lib.rs`. The
ordered maps and sets of the source are tree maps and tree sets here. So is its map of clients,
whose order no function looks at. The vectors and their floating-point numbers are type parameters,
and the comparison of a squared distance with a squared radius is a parameter `inRadius`.
-/

namespace Sdec

/-- The derived order of `EntityId`. -/
instance : Ord EntityId := ⟨compareOn EntityId.raw⟩

instance : Std.TransOrd EntityId := inferInstanceAs (Std.TransCmp (compareOn EntityId.raw))

instance : Std.LawfulEqOrd EntityId where
  eq_of_compare {a b} h := by
    cases a
    cases b
    exact congrArg EntityId.mk (Std.LawfulEqOrd.eq_of_compare (α := UInt32) h)

end Sdec

namespace Sdec.Repgraph

open Rust

/-- `ClientId`. -/
structure ClientId where
  raw : UInt32
  deriving DecidableEq, Repr

/-- The derived order of `ClientId`. -/
instance : Ord ClientId := ⟨compareOn ClientId.raw⟩

instance : Std.TransOrd ClientId := inferInstanceAs (Std.TransCmp (compareOn ClientId.raw))

instance : Std.LawfulEqOrd ClientId where
  eq_of_compare {a b} h := by
    cases a
    cases b
    exact congrArg ClientId.mk (Std.LawfulEqOrd.eq_of_compare (α := UInt32) h)

/-- `ClientBudget`. -/
structure ClientBudget where
  maxCreates : Nat
  maxUpdates : Nat
  maxDestroys : Nat
  deriving DecidableEq, Repr

/-- `ClientBudget::unlimited`. -/
def ClientBudget.unlimited : ClientBudget := ⟨usizeMax, usizeMax, usizeMax⟩

variable (Vec3 F32 : Type)

/-- `ClientView`. -/
structure ClientView where
  position : Vec3
  radius : F32
  budget : ClientBudget

/-- `ReplicationConfig`. -/
structure ReplicationConfig where
  maxEntities : Nat
  deriving DecidableEq, Repr

/-- `ClientDelta`. -/
structure ClientDelta where
  creates : List EntitySnapshot
  destroys : List EntityId
  updates : List DeltaUpdateEntity
  deriving DecidableEq, Repr

/-- `WorldView`, the adapter that the caller supplies. -/
structure WorldView where
  snapshot : EntityId → EntitySnapshot
  update : EntityId → List ComponentId → Option DeltaUpdateEntity

/-- `EntityEntry`. -/
structure EntityEntry where
  position : Vec3
  priority : UInt8
  dirtyComponents : List ComponentId

/-- `ClientState`. -/
structure ClientState where
  view : ClientView Vec3 F32
  knownEntities : Std.TreeSet EntityId

/-- `ReplicationGraph`. -/
structure ReplicationGraph where
  config : ReplicationConfig
  entities : Std.TreeMap EntityId (EntityEntry Vec3)
  removedEntities : Std.TreeSet EntityId
  clients : Std.TreeMap ClientId (ClientState Vec3 F32)

variable {Vec3 F32}

/-- `push_unique_components`. -/
def pushUniqueComponents (target newComponents : List ComponentId) : List ComponentId :=
  newComponents.foldl (fun target component =>
    if component ∈ target then target else target ++ [component]) target

/-- `apply_budget`. -/
def applyBudget (delta : ClientDelta) (budget : ClientBudget) : ClientDelta where
  creates := delta.creates.take budget.maxCreates
  destroys := delta.destroys.take budget.maxDestroys
  updates := delta.updates.take budget.maxUpdates

namespace ReplicationGraph

/-- `ReplicationGraph::new`. -/
def new (config : ReplicationConfig) : ReplicationGraph Vec3 F32 := ⟨config, ∅, ∅, ∅⟩

/-- `ReplicationGraph::update_entity`. -/
def updateEntity (graph : ReplicationGraph Vec3 F32) (entity : EntityId) (position : Vec3)
    (dirtyComponents : List ComponentId) : ReplicationGraph Vec3 F32 :=
  if graph.entities.size ≥ graph.config.maxEntities ∧ entity ∉ graph.entities then graph
  else
    let entry := graph.entities.getD entity ⟨position, 0, []⟩
    let entry := { entry with
      position
      dirtyComponents := pushUniqueComponents entry.dirtyComponents dirtyComponents }
    { graph with entities := graph.entities.insert entity entry }

/-- `ReplicationGraph::set_entity_priority`. -/
def setEntityPriority (graph : ReplicationGraph Vec3 F32) (entity : EntityId) (priority : UInt8) :
    ReplicationGraph Vec3 F32 :=
  { graph with entities := graph.entities.modify entity fun entry => { entry with priority } }

/-- `ReplicationGraph::remove_entity`. -/
def removeEntity (graph : ReplicationGraph Vec3 F32) (entity : EntityId) :
    ReplicationGraph Vec3 F32 :=
  { graph with
    entities := graph.entities.erase entity
    removedEntities := graph.removedEntities.insert entity }

/-- `ReplicationGraph::upsert_client`. -/
def upsertClient (graph : ReplicationGraph Vec3 F32) (client : ClientId)
    (view : ClientView Vec3 F32) : ReplicationGraph Vec3 F32 :=
  let state := graph.clients.getD client ⟨view, ∅⟩
  { graph with clients := graph.clients.insert client { state with view } }

/-- `ReplicationGraph::remove_client`. -/
def removeClient (graph : ReplicationGraph Vec3 F32) (client : ClientId) :
    ReplicationGraph Vec3 F32 :=
  { graph with clients := graph.clients.erase client }

/-- The entities that `build_client_delta` finds in the radius of a view. -/
def relevant (inRadius : Vec3 → Vec3 → F32 → Bool) (graph : ReplicationGraph Vec3 F32)
    (view : ClientView Vec3 F32) : List EntityId :=
  (graph.entities.toList.filter fun (_, entry) =>
    inRadius entry.position view.position view.radius).map Prod.fst

/-- The update that `build_client_delta` takes from the world for an entity. -/
def updateOf (graph : ReplicationGraph Vec3 F32) (world : WorldView) (id : EntityId) :
    Option DeltaUpdateEntity :=
  match graph.entities[id]? with
  | none => none
  | some entry =>
      if entry.dirtyComponents.isEmpty then none else world.update id entry.dirtyComponents

/-- The delta of `build_client_delta` before the budget is applied. -/
def pendingDelta (inRadius : Vec3 → Vec3 → F32 → Bool) (graph : ReplicationGraph Vec3 F32)
    (state : ClientState Vec3 F32) (world : WorldView) : ClientDelta :=
  let relevant := graph.relevant inRadius state.view
  let creates := relevant.filterMap fun id =>
    if id ∈ state.knownEntities then none else some (world.snapshot id)
  let updates := relevant.filterMap fun id =>
    if id ∈ state.knownEntities then graph.updateOf world id else none
  let lost := state.knownEntities.toList.filter fun id => id ∉ relevant
  let removed := graph.removedEntities.toList.filter fun id =>
    id ∈ state.knownEntities ∧ id ∉ lost
  ⟨creates, (lost ++ removed).insertionSort fun a b => a.raw ≤ b.raw, updates⟩

/-- `ReplicationGraph::build_client_delta`. -/
def buildClientDelta (inRadius : Vec3 → Vec3 → F32 → Bool) (graph : ReplicationGraph Vec3 F32)
    (client : ClientId) (world : WorldView) : ClientDelta × ReplicationGraph Vec3 F32 :=
  match graph.clients[client]? with
  | none => (⟨[], [], []⟩, graph)
  | some state =>
      let delta := applyBudget (graph.pendingDelta inRadius state world) state.view.budget
      let known := delta.destroys.foldl Std.TreeSet.erase state.knownEntities
      let known := delta.creates.foldl (fun known create => known.insert create.id) known
      (delta, { graph with
        clients := graph.clients.insert client { state with knownEntities := known } })

/-- `ReplicationGraph::clear_dirty`. -/
def clearDirty (graph : ReplicationGraph Vec3 F32) : ReplicationGraph Vec3 F32 :=
  { graph with entities := graph.entities.map fun _ entry => { entry with dirtyComponents := [] } }

/-- `ReplicationGraph::clear_removed`. -/
def clearRemoved (graph : ReplicationGraph Vec3 F32) : ReplicationGraph Vec3 F32 :=
  { graph with removedEntities := ∅ }

end ReplicationGraph

end Sdec.Repgraph
