import Sdec.Repgraph.Tick
import Sdec.Runs.Throughout

/-!
# Updates that a budget cuts

A build cuts its updates to the budget of the client, and the dirty flags are cleared at the end of
the tick whether an update was sent or not. So an update that was cut is sent later only if the
entity is marked again: `dropped_update_resent_iff`.
-/

namespace Sdec.Repgraph

open Rust Runs

variable {Vec3 F32 : Type} {inRadius : Vec3 → Vec3 → F32 → Bool}
  {graph : ReplicationGraph Vec3 F32} {client : ClientId} {id : EntityId}

/-- Ticks that build every client once, from a world that answers about the entities it is asked
about. -/
def Protocol (inRadius : Vec3 → Vec3 → F32 → Bool) :
    ReplicationGraph Vec3 F32 → List (Tick Vec3 F32) → Prop :=
  Throughout (Tick.finish inRadius) fun graph tick => tick.Complete graph ∧ tick.world.Named

/-! ## A dropped update -/

/-- A build leaves out the update of an entity that its client knows and sees, with these dirty
components, because of the budget. -/
structure Dropped (inRadius : Vec3 → Vec3 → F32 → Bool) (tick : Tick Vec3 F32)
    (graph : ReplicationGraph Vec3 F32) (client : ClientId) (id : EntityId)
    (dirty : List ComponentId) : Prop where
  updatable : ∃ state, (tick.prepare graph).clients[client]? = some state
    ∧ (tick.prepare graph).updatable inRadius state tick.world id
  dirty : (tick.prepare graph).entities[id]?.map EntityEntry.dirtyComponents = some dirty
  left_out : ∀ delta, (client, delta) ∈ tick.deltas inRadius graph →
    id ∉ delta.updates.map DeltaUpdateEntity.id

/-- In a tick, a client is kept and an entity stays tracked and relevant to it. -/
structure Watched (inRadius : Vec3 → Vec3 → F32 → Bool) (client : ClientId) (id : EntityId)
    (graph : ReplicationGraph Vec3 F32) (tick : Tick Vec3 F32) : Prop where
  tracked : .removeEntity id ∉ tick.requests
  kept : .removeClient client ∉ tick.requests
  relevant : ∃ state, (tick.prepare graph).clients[client]? = some state
    ∧ (tick.prepare graph).inView inRadius state.view id

/-- The updates of a build are within the budget of its client. -/
def Untruncated (inRadius : Vec3 → Vec3 → F32 → Bool) (tick : Tick Vec3 F32)
    (graph : ReplicationGraph Vec3 F32) (client : ClientId) : Prop :=
  ∃ state, (tick.prepare graph).clients[client]? = some state
    ∧ ((tick.prepare graph).pendingDelta inRadius state tick.world).updates.length
      ≤ state.view.budget.maxUpdates

/-- A build has an update for an entity that covers some components. -/
def Resent (inRadius : Vec3 → Vec3 → F32 → Bool) (tick : Tick Vec3 F32)
    (graph : ReplicationGraph Vec3 F32) (client : ClientId) (id : EntityId)
    (dirty : List ComponentId) : Prop :=
  ∃ delta update, (client, delta) ∈ tick.deltas inRadius graph ∧ update ∈ delta.updates
    ∧ update.id = id ∧ ∀ c ∈ dirty, c ∈ update.components.map DeltaUpdateComponent.id

/-- The requests of a tick mark an entity again, and what the world updates of the components they
list covers some components. -/
def Remarked (tick : Tick Vec3 F32) (id : EntityId) (dirty : List ComponentId) : Prop :=
  marks id tick.requests ≠ []
    ∧ ∃ update, tick.world.update id (marks id tick.requests) = some update
    ∧ ∀ c ∈ dirty, c ∈ update.components.map DeltaUpdateComponent.id

/-- Between ticks, the client knows the entity, which is tracked. -/
structure Follows (client : ClientId) (id : EntityId)
    (graph : ReplicationGraph Vec3 F32) : Prop where
  clean : Clean graph
  tracked : ∃ entry, graph.entities[id]? = some entry
  known : id ∈ graph.known client

theorem Follows.finish {tick : Tick Vec3 F32} (h : Follows client id graph)
    (hcomplete : tick.Complete graph) (hwatched : Watched inRadius client id graph tick) :
    Follows client id (tick.finish inRadius graph) := by
  obtain ⟨state, hstate, hview⟩ := hwatched.relevant
  refine ⟨clean_finish _ _, ?_, known_finish hcomplete hstate hview ?_ fun hremoved => ?_⟩
  · obtain ⟨entry, hentry⟩ := tracked_of_in_view hview
    exact ⟨_, by rw [finish_entities _ hcomplete, hentry]; rfl⟩
  · have hknown := h.known
    rw [← handle_all_known hwatched.kept] at hknown
    rwa [ReplicationGraph.known, ← Tick.prepare, hstate] at hknown
  · exact (handle_all_removed.mp hremoved).elim (h.clean.removed id) hwatched.tracked

/-- The client of a dropped update knows the entity when the tick is over. -/
theorem Dropped.follows {tick : Tick Vec3 F32} {dirty : List ComponentId}
    (h : Dropped inRadius tick graph client id dirty) (hclean : Clean graph)
    (hcomplete : tick.Complete graph) (htracked : .removeEntity id ∉ tick.requests) :
    Follows client id (tick.finish inRadius graph) := by
  obtain ⟨state, hstate, hupdatable⟩ := h.updatable
  simp only [ReplicationGraph.updatable, decide_eq_true_eq] at hupdatable
  obtain ⟨hview, hknown, -⟩ := hupdatable
  obtain ⟨entry, hentry⟩ := tracked_of_in_view hview
  refine ⟨clean_finish _ _, ⟨_, by rw [finish_entities _ hcomplete, hentry]; rfl⟩,
    known_finish hcomplete hstate hview hknown fun hremoved => ?_⟩
  exact (handle_all_removed.mp hremoved).elim (hclean.removed id) htracked

/-- A build whose updates are not cut has an update for an entity that its client follows exactly
when the requests of the tick mark it and the world updates what they mark. -/
theorem Follows.resent_iff {tick : Tick Vec3 F32} {dirty : List ComponentId}
    (h : Follows client id graph) (hcomplete : tick.Complete graph) (hworld : tick.world.Named)
    (hwatched : Watched inRadius client id graph tick)
    (huntruncated : Untruncated inRadius tick graph client) :
    Resent inRadius tick graph client id dirty ↔ Remarked tick id dirty := by
  obtain ⟨state, hstate, hview⟩ := hwatched.relevant
  obtain ⟨state', hstate', hfits⟩ := huntruncated
  rw [hstate] at hstate'
  cases hstate'
  have hmem := mem_clients hcomplete hstate
  have hknown : id ∈ state.knownEntities := by
    have hknown := h.known
    rw [← handle_all_known hwatched.kept] at hknown
    rwa [ReplicationGraph.known, ← Tick.prepare, hstate] at hknown
  -- The dirty components are the ones marked in this tick, since none were left from before.
  obtain ⟨entry, hentry, hdirty⟩ : ∃ entry, (tick.prepare graph).entities[id]? = some entry
      ∧ entry.dirtyComponents = marks id tick.requests := by
    obtain ⟨entry, hentry⟩ := h.tracked
    obtain ⟨entry', hentry', hdirty⟩ := handle_all_entity hentry hwatched.tracked
    rw [h.clean.dirty id entry hentry] at hdirty
    exact ⟨entry', hentry', hdirty⟩
  have hdelta (delta : ClientDelta) : (client, delta) ∈ tick.deltas inRadius graph
      ↔ delta = applyBudget ((tick.prepare graph).pendingDelta inRadius state tick.world)
        state.view.budget := by
    have hbuild : Builds inRadius (tick.prepare graph) state tick.world client _ _ :=
      build_client_delta_of_some hstate
    rw [Tick.deltas, (build_all_builds hcomplete.nodup).deltas, List.mem_map, ← hbuild.pending]
    constructor
    · rintro ⟨other, -, heq⟩
      cases heq
      rfl
    · rintro rfl
      exact ⟨client, hmem, rfl⟩
  have hupdate (u : DeltaUpdateEntity) :
      u ∈ ((tick.prepare graph).pendingDelta inRadius state tick.world).updates ∧ u.id = id
        ↔ marks id tick.requests ≠ []
          ∧ tick.world.update id (marks id tick.requests) = some u := by
    rw [mem_pending_updates hworld]
    constructor
    · rintro ⟨⟨-, -, hu⟩, rfl⟩
      obtain ⟨-, entry', hentry', hne, hu⟩ := (updateOf_eq_some hworld).mp hu
      rw [hentry] at hentry'
      cases hentry'
      rw [hdirty] at hne hu
      exact ⟨hne, hu⟩
    · rintro ⟨hne, hu⟩
      have hid := hworld.update _ _ _ hu
      subst hid
      rw [← hdirty] at hne hu
      exact ⟨⟨hview, hknown, (updateOf_eq_some hworld).mpr ⟨rfl, entry, hentry, hne, hu⟩⟩, rfl⟩
  constructor
  · rintro ⟨delta, u, hmem', hu, hid, hcovers⟩
    rw [(hdelta delta).mp hmem', applyBudget, List.take_of_length_le hfits] at hu
    obtain ⟨hne, hu⟩ := (hupdate u).mp ⟨hu, hid⟩
    exact ⟨hne, u, hu, hcovers⟩
  · rintro ⟨hne, u, hu, hcovers⟩
    obtain ⟨hu, hid⟩ := (hupdate u).mpr ⟨hne, hu⟩
    refine ⟨_, u, (hdelta _).mpr rfl, ?_, hid, hcovers⟩
    rw [applyBudget, List.take_of_length_le hfits]
    exact hu

/-- An update that a budget cut is sent in a later build whose updates are not cut exactly when the
requests of that tick mark the entity again, so that the world updates all of the components that
were dirty. -/
theorem dropped_update_resent_iff (config : ReplicationConfig)
    (before between : List (Tick Vec3 F32)) (tick later : Tick Vec3 F32) {dirty : List ComponentId}
    (hprotocol : Protocol inRadius (.new config) (before ++ tick :: between ++ [later]))
    (hdropped : Dropped inRadius tick (runTicks inRadius (.new config) before) client id dirty)
    (htracked : .removeEntity id ∉ tick.requests)
    (hwatched : Throughout (Tick.finish inRadius) (Watched inRadius client id)
      (runTicks inRadius (.new config) (before ++ [tick])) (between ++ [later]))
    (huntruncated : Untruncated inRadius later
      (runTicks inRadius (.new config) (before ++ tick :: between)) client) :
    Resent inRadius later (runTicks inRadius (.new config) (before ++ tick :: between))
      client id dirty
      ↔ Remarked later id dirty := by
  rw [List.append_assoc, Protocol, throughout_append, List.cons_append,
    throughout_cons] at hprotocol
  obtain ⟨-, ⟨hcomplete, -⟩, hprotocol⟩ := hprotocol
  rw [runTicks, List.foldl_append] at hwatched
  have hfollows := hdropped.follows (clean_run (clean_new config)) hcomplete htracked
  have hboth := hprotocol.and hwatched
  rw [throughout_append] at hboth
  have hlast := hboth.1.invariant hfollows fun _ _ h hf => hf.finish h.1.1 h.2
  obtain ⟨⟨⟨hcomplete', hworld⟩, hwatched'⟩, -⟩ := hboth.2
  rw [runTicks, List.foldl_append] at huntruncated ⊢
  exact hlast.resent_iff hcomplete' hworld hwatched' huntruncated

/-! ### An update that is lost -/

/-- A client with room for one update in its budget is sent two entities. -/
def sendTwo : Tick Int Int where
  requests := [.upsertClient ⟨1⟩ ⟨0, 10, ⟨8, 1, 8⟩⟩, .updateEntity ⟨1⟩ 3 [], .updateEntity ⟨2⟩ 4 []]
  world := plainWorld
  clients := [⟨1⟩]

/-- Both entities change. -/
def changeTwo : Tick Int Int where
  requests := [.updateEntity ⟨1⟩ 3 [⟨1, nonzero_one⟩], .updateEntity ⟨2⟩ 4 [⟨1, nonzero_one⟩]]
  world := plainWorld
  clients := [⟨1⟩]

/-- Nothing changes. -/
def rest : Tick Int Int := ⟨[], plainWorld, [⟨1⟩]⟩

/-- The graph before both entities change. -/
def sentTwo : ReplicationGraph Int Int := runTicks lineRadius (.new ⟨10⟩) [sendTwo]

/-- The graph behind that. -/
def changedTwo : ReplicationGraph Int Int := runTicks lineRadius (.new ⟨10⟩) [sendTwo, changeTwo]

theorem two_protocol : Protocol lineRadius (.new ⟨10⟩) [sendTwo, changeTwo, rest] :=
  ⟨⟨complete_of_keys (by decide) (by decide), plain_world_named⟩,
    ⟨complete_of_keys (by decide) (by decide), plain_world_named⟩,
    ⟨complete_of_keys (by decide) (by decide), plain_world_named⟩, trivial⟩

theorem two_dropped : Dropped lineRadius changeTwo sentTwo ⟨1⟩ ⟨2⟩ [⟨1, by decide⟩] where
  updatable := ⟨_, rfl, by decide⟩
  dirty := by decide
  left_out delta h := by
    have hdeltas : (changeTwo.deltas lineRadius sentTwo).map (fun pair =>
        pair.2.updates.map DeltaUpdateEntity.id) = [[⟨1⟩]] := by decide
    have hids := List.mem_map_of_mem (f := fun pair : ClientId × ClientDelta =>
      pair.2.updates.map DeltaUpdateEntity.id) h
    rw [hdeltas, List.mem_singleton] at hids
    rw [hids]
    decide

theorem two_watched : Watched lineRadius ⟨1⟩ ⟨2⟩ changedTwo rest where
  tracked := by simp [rest]
  kept := by simp [rest]
  relevant := ⟨_, rfl, by decide⟩

theorem two_untruncated : Untruncated lineRadius rest changedTwo ⟨1⟩ := ⟨_, rfl, by decide⟩

theorem two_not_removed : (.removeEntity ⟨2⟩ : Request Int Int) ∉ changeTwo.requests := by
  simp [changeTwo]

theorem two_not_remarked : ¬ Remarked rest ⟨2⟩ [⟨1, by decide⟩] := fun h => h.1 rfl

/-- The second entity changes again. -/
def changeSecond : Tick Int Int where
  requests := [.updateEntity ⟨2⟩ 4 [⟨1, nonzero_one⟩]]
  world := plainWorld
  clients := [⟨1⟩]

theorem second_protocol : Protocol lineRadius (.new ⟨10⟩) [sendTwo, changeTwo, changeSecond] :=
  ⟨⟨complete_of_keys (by decide) (by decide), plain_world_named⟩,
    ⟨complete_of_keys (by decide) (by decide), plain_world_named⟩,
    ⟨complete_of_keys (by decide) (by decide), plain_world_named⟩, trivial⟩

theorem second_watched : Watched lineRadius ⟨1⟩ ⟨2⟩ changedTwo changeSecond where
  tracked := by simp [changeSecond]
  kept := by simp [changeSecond]
  relevant := ⟨_, rfl, by decide⟩

theorem second_untruncated : Untruncated lineRadius changeSecond changedTwo ⟨1⟩ :=
  ⟨_, rfl, by decide⟩

theorem second_remarked : Remarked changeSecond ⟨2⟩ [⟨1, by decide⟩] :=
  ⟨by decide, _, rfl, by decide⟩

/-- The update is not sent in a tick without changes, but it is when the entity changes again. -/
theorem dropped_update_resent_iff_rest :
    (¬ Resent lineRadius rest changedTwo ⟨1⟩ ⟨2⟩ [⟨1, by decide⟩])
      ∧ Resent lineRadius changeSecond changedTwo ⟨1⟩ ⟨2⟩ [⟨1, by decide⟩] :=
  ⟨(dropped_update_resent_iff ⟨10⟩ [sendTwo] [] changeTwo rest two_protocol two_dropped
      two_not_removed ⟨two_watched, trivial⟩ two_untruncated).not.mpr two_not_remarked,
    (dropped_update_resent_iff ⟨10⟩ [sendTwo] [] changeTwo changeSecond second_protocol two_dropped
      two_not_removed ⟨second_watched, trivial⟩ second_untruncated).mpr second_remarked⟩

/-- The update of the second entity is dropped, and no later build sends it. -/
theorem dropped_update_lost :
    ¬ ∀ (config : ReplicationConfig) (before between : List (Tick Int Int))
      (tick later : Tick Int Int) (client : ClientId) (id : EntityId) (dirty : List ComponentId),
      Protocol lineRadius (.new config) (before ++ tick :: between ++ [later]) →
      Dropped lineRadius tick (runTicks lineRadius (.new config) before) client id dirty →
      .removeEntity id ∉ tick.requests →
      Throughout (Tick.finish lineRadius) (Watched lineRadius client id)
        (runTicks lineRadius (.new config) (before ++ [tick])) (between ++ [later]) →
      Untruncated lineRadius later
        (runTicks lineRadius (.new config) (before ++ tick :: between)) client →
      Resent lineRadius later
        (runTicks lineRadius (.new config) (before ++ tick :: between)) client id dirty := by
  intro h
  obtain ⟨delta, update, hdelta, hupdate, -⟩ := h ⟨10⟩ [sendTwo] [] changeTwo rest ⟨1⟩ ⟨2⟩ _
    two_protocol two_dropped two_not_removed ⟨two_watched, trivial⟩ two_untruncated
  have hnone :
      (rest.deltas lineRadius changedTwo).map (fun pair => pair.2.updates.length) = [0] := by
    decide
  have hlength := List.mem_map_of_mem (f := fun pair : ClientId × ClientDelta =>
    pair.2.updates.length) hdelta
  rw [show runTicks lineRadius (.new ⟨10⟩) ([sendTwo] ++ changeTwo :: []) = changedTwo from rfl,
    hnone, List.mem_singleton] at hlength
  exact absurd (List.length_eq_zero_iff.mp hlength) (List.ne_nil_of_mem hupdate)

end Sdec.Repgraph
