import Sdec.Repgraph.Run

/-!
# Priorities and budgets

A budget cuts the creates and the updates of a build, which stand in the order of their ids, and
looks at no priority. So it keeps the most important entities exactly when these come first in the
order of their ids: `run_budgets_iff`.
-/

namespace Sdec.Repgraph

open Rust Sorted

variable {Vec3 F32 : Type} {inRadius : Vec3 → Vec3 → F32 → Bool}
  {graph : ReplicationGraph Vec3 F32} {state : ClientState Vec3 F32} {world : WorldView}

/-- The priority of a tracked entity, as it was last set. -/
def ReplicationGraph.priority (graph : ReplicationGraph Vec3 F32) (id : EntityId) : UInt8 :=
  match graph.entities[id]? with
  | some entry => entry.priority
  | none => 0

/-- The entities that a client sees and does not know. -/
def ReplicationGraph.creatable (inRadius : Vec3 → Vec3 → F32 → Bool)
    (graph : ReplicationGraph Vec3 F32) (state : ClientState Vec3 F32) (id : EntityId) : Bool :=
  graph.inView inRadius state.view id ∧ id ∉ state.knownEntities

/-- How many of the tracked entities that wait have a smaller id. -/
def ReplicationGraph.ahead (graph : ReplicationGraph Vec3 F32) (waits : EntityId → Bool)
    (id : EntityId) : Nat :=
  ((graph.entities.keys.filter waits).filter fun other => other.raw < id.raw).length

/-- Of the tracked entities that wait, one with `n` or more ahead of it is more important than one
with fewer. -/
def ReplicationGraph.Overtakes (graph : ReplicationGraph Vec3 F32) (waits : EntityId → Bool)
    (n : Nat) : Prop :=
  ∃ first last, first ∈ graph.entities ∧ waits first ∧ last ∈ graph.entities ∧ waits last
    ∧ graph.ahead waits first < n ∧ n ≤ graph.ahead waits last
    ∧ graph.priority first < graph.priority last

/-- No element that a list lost is more important than one that it kept. -/
def ReplicationGraph.KeepsHighest {α : Type} (graph : ReplicationGraph Vec3 F32)
    (idOf : α → EntityId) (all sent : List α) : Prop :=
  ∀ kept ∈ sent, ∀ cut ∈ all, cut ∉ sent → ¬ graph.priority (idOf kept) < graph.priority (idOf cut)

/-- What the budget keeps of the creates and of the updates of a build is not less important than
what it cuts. -/
def BudgetKeepsHighest (inRadius : Vec3 → Vec3 → F32 → Bool) (graph : ReplicationGraph Vec3 F32)
    (client : ClientId) (world : WorldView) : Prop :=
  ∀ state, graph.clients[client]? = some state →
    let pending := graph.pendingDelta inRadius state world
    let sent := (graph.buildClientDelta inRadius client world).1
    graph.KeepsHighest EntitySnapshot.id pending.creates sent.creates ∧
      graph.KeepsHighest DeltaUpdateEntity.id pending.updates sent.updates

/-- In the order of their ids, no entity that waits to be created or updated for a client overtakes
another one at the bound of its budget. -/
def PrioritiesInOrder (inRadius : Vec3 → Vec3 → F32 → Bool) (graph : ReplicationGraph Vec3 F32)
    (client : ClientId) (world : WorldView) : Prop :=
  ∀ state, graph.clients[client]? = some state →
    ¬ graph.Overtakes (graph.creatable inRadius state) state.view.budget.maxCreates ∧
      ¬ graph.Overtakes (graph.updatable inRadius state world) state.view.budget.maxUpdates

/-- A list of the tracked entities that wait, in the order of their ids, and what is left of it when
it is cut. -/
theorem keeps_highest_iff {α : Type} {idOf : α → EntityId} {items : List α}
    {waits : EntityId → Bool} (hids : items.map idOf = graph.entities.keys.filter waits) (n : Nat) :
    graph.KeepsHighest idOf items (items.take n) ↔ ¬ graph.Overtakes waits n := by
  have hascend : items.Pairwise fun a b => (idOf a).raw < (idOf b).raw := by
    have hkeys := (keys_ascend graph.entities).filter waits
    rw [← hids, List.pairwise_map] at hkeys
    exact hkeys
  have hahead (x : α) : (items.filter fun a => (idOf a).raw < (idOf x).raw).length
      = graph.ahead waits (idOf x) := by
    rw [ReplicationGraph.ahead, ← hids, List.filter_map, List.length_map]
    rfl
  have hkept (x : α) : x ∈ items.take n ↔ x ∈ items ∧ graph.ahead waits (idOf x) < n := by
    rw [mem_take_iff hascend, hahead]
  have hwaits {x : α} (hx : x ∈ items) : idOf x ∈ graph.entities ∧ waits (idOf x) := by
    have hmem := List.mem_map_of_mem (f := idOf) hx
    rw [hids, List.mem_filter, Std.TreeMap.mem_keys] at hmem
    exact hmem
  have hitem {id : EntityId} (htracked : id ∈ graph.entities) (hwait : waits id) :
      ∃ x ∈ items, idOf x = id := by
    rw [← List.mem_map, hids, List.mem_filter, Std.TreeMap.mem_keys]
    exact ⟨htracked, hwait⟩
  constructor
  · intro hkeeps hover
    obtain ⟨first, last, hfirst, hfirstWaits, hlast, hlastWaits, hbefore, hbehind, hless⟩ := hover
    obtain ⟨kept, hmem, rfl⟩ := hitem hfirst hfirstWaits
    obtain ⟨cut, hcut, rfl⟩ := hitem hlast hlastWaits
    refine hkeeps kept ((hkept kept).mpr ⟨hmem, hbefore⟩) cut hcut (fun hin => ?_) hless
    exact absurd ((hkept cut).mp hin).2 (Nat.not_lt.mpr hbehind)
  · intro hno kept hin cut hcut hout hless
    obtain ⟨hmem, hbefore⟩ := (hkept kept).mp hin
    refine hno ⟨idOf kept, idOf cut, (hwaits hmem).1, (hwaits hmem).2, (hwaits hcut).1,
      (hwaits hcut).2, hbefore, Nat.le_of_not_lt fun hfew => ?_, hless⟩
    exact hout ((hkept cut).mpr ⟨hcut, hfew⟩)

/-- One build: the budget keeps the most important entities exactly when the priorities are in the
order of the ids where it cuts. -/
theorem budget_keeps_highest_iff (hworld : world.Named) (client : ClientId) :
    BudgetKeepsHighest inRadius graph client world
      ↔ PrioritiesInOrder inRadius graph client world := by
  refine forall_congr' fun state => forall_congr' fun hstate => ?_
  have hbuild : Builds inRadius graph state world client _ _ := build_client_delta_of_some hstate
  have hcreates : (graph.pendingDelta inRadius state world).creates.map EntitySnapshot.id
      = graph.entities.keys.filter (graph.creatable inRadius state) := by
    rw [pending_creates_ids hworld, relevant_eq, List.filter_filter]
    refine List.filter_congr fun id _ => ?_
    rw [ReplicationGraph.creatable, Bool.decide_and, Bool.decide_eq_true, Bool.and_comm]
  dsimp only
  rw [hbuild.pending]
  exact and_congr (keeps_highest_iff hcreates _) (keeps_highest_iff (pending_updates_ids hworld) _)

/-- Every build of a run keeps the most important entities of its creates and of its updates exactly
when, in every graph that the run builds from, the priorities are in the order of the ids where the
budget cuts. -/
theorem run_budgets_iff (config : ReplicationConfig) (actions : List (Action Vec3 F32))
    (hworld : ∀ client world, .build client world ∈ actions → world.Named) :
    (∀ graph client world, (graph, .build client world) ∈ history inRadius (.new config) actions →
        BudgetKeepsHighest inRadius graph client world)
      ↔ ∀ graph client world, (graph, .build client world)
        ∈ history inRadius (.new config) actions →
        PrioritiesInOrder inRadius graph client world := by
  refine forall_congr' fun graph => forall_congr' fun client => forall_congr' fun world =>
    forall_congr' fun hbuild => budget_keeps_highest_iff (hworld client world ?_) client
  exact mem_of_history hbuild

/-! ### A budget that starves an important entity -/

/-- A client with room for one create in its budget sees two entities, the second of which matters
more. -/
def starvingRun : List (Action Int Int) :=
  [.request (.upsertClient ⟨1⟩ ⟨0, 10, ⟨1, 8, 8⟩⟩),
    .request (.updateEntity ⟨1⟩ 3 []),
    .request (.updateEntity ⟨2⟩ 4 []),
    .request (.setEntityPriority ⟨2⟩ 9),
    .build ⟨1⟩ plainWorld]

/-- The graph before the build. -/
def starvingGraph : ReplicationGraph Int Int :=
  (starvingRun.take 4).foldl (ReplicationGraph.act lineRadius) (.new ⟨10⟩)

theorem starving_run_worlds_named (client : ClientId) (world : WorldView)
    (h : .build client world ∈ starvingRun) : world.Named := by
  simp only [starvingRun, List.mem_cons, Action.build.injEq, reduceCtorEq, List.not_mem_nil,
    or_false, false_or] at h
  obtain ⟨-, rfl⟩ := h
  exact plain_world_named

theorem starving_graph_mem :
    (starvingGraph, .build ⟨1⟩ plainWorld) ∈ history lineRadius (.new ⟨10⟩) starvingRun := by
  simp only [starvingRun, history, List.mem_cons]
  exact .inr (.inr (.inr (.inr (.inl rfl))))

/-- The entity of priority 0 is sent, and the one of priority 9 is cut. -/
theorem starving_build : ¬ BudgetKeepsHighest lineRadius starvingGraph ⟨1⟩ plainWorld := by
  intro h
  have hcreates := (h _ rfl).1 ⟨⟨1⟩, []⟩ (by decide) ⟨⟨2⟩, []⟩ (by decide) (by decide)
  exact hcreates (by decide)

theorem budget_starves_priority :
    ¬ ∀ graph client world,
      (graph, .build client world) ∈ history lineRadius (.new ⟨10⟩) starvingRun →
        BudgetKeepsHighest lineRadius graph client world :=
  fun h => starving_build (h _ _ _ starving_graph_mem)

/-- The same run with the priorities in the order of the ids. -/
def orderedRun : List (Action Int Int) :=
  [.request (.upsertClient ⟨1⟩ ⟨0, 10, ⟨1, 8, 8⟩⟩),
    .request (.updateEntity ⟨1⟩ 3 []),
    .request (.updateEntity ⟨2⟩ 4 []),
    .request (.setEntityPriority ⟨1⟩ 9),
    .build ⟨1⟩ plainWorld]

theorem ordered_run_worlds_named (client : ClientId) (world : WorldView)
    (h : .build client world ∈ orderedRun) : world.Named := by
  simp only [orderedRun, List.mem_cons, Action.build.injEq, reduceCtorEq, List.not_mem_nil,
    or_false, false_or] at h
  obtain ⟨-, rfl⟩ := h
  exact plain_world_named

theorem overtakes_iff_keys {waits : EntityId → Bool} {n : Nat} :
    graph.Overtakes waits n ↔ ∃ first ∈ graph.entities.keys.filter waits,
      ∃ last ∈ graph.entities.keys.filter waits,
        graph.ahead waits first < n ∧ n ≤ graph.ahead waits last
          ∧ graph.priority first < graph.priority last := by
  simp only [List.mem_filter, Std.TreeMap.mem_keys]
  constructor
  · rintro ⟨first, last, hfirst, hfirstWaits, hlast, hlastWaits, hover⟩
    exact ⟨first, ⟨hfirst, hfirstWaits⟩, last, ⟨hlast, hlastWaits⟩, hover⟩
  · rintro ⟨first, ⟨hfirst, hfirstWaits⟩, last, ⟨hlast, hlastWaits⟩, hover⟩
    exact ⟨first, last, hfirst, hfirstWaits, hlast, hlastWaits, hover⟩

theorem ordered_run_in_order (graph : ReplicationGraph Int Int) (client : ClientId)
    (world : WorldView)
    (h : (graph, .build client world) ∈ history lineRadius (.new ⟨10⟩) orderedRun) :
    PrioritiesInOrder lineRadius graph client world := by
  simp only [orderedRun, history, List.mem_cons, Prod.mk.injEq, reduceCtorEq, List.not_mem_nil,
    or_false, false_or, and_false] at h
  obtain ⟨rfl, hbuild⟩ := h
  cases hbuild
  intro state hstate
  cases hstate
  rw [overtakes_iff_keys, overtakes_iff_keys]
  decide

/-- The first run has a build whose priorities are out of order, and the budget of the second one
keeps the entity that matters more. -/
theorem run_budgets_iff_starving :
    (¬ ∀ graph client world,
      (graph, .build client world) ∈ history lineRadius (.new ⟨10⟩) starvingRun →
        PrioritiesInOrder lineRadius graph client world)
    ∧ ∀ graph client world,
      (graph, .build client world) ∈ history lineRadius (.new ⟨10⟩) orderedRun →
        BudgetKeepsHighest lineRadius graph client world :=
  ⟨(run_budgets_iff ⟨10⟩ starvingRun starving_run_worlds_named).not.mp fun h =>
      starving_build (h _ _ _ starving_graph_mem),
    (run_budgets_iff ⟨10⟩ orderedRun ordered_run_worlds_named).mpr ordered_run_in_order⟩

end Sdec.Repgraph
