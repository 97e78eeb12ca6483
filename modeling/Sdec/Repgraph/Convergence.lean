import Sdec.Repgraph.Tick
import Sdec.Runs.Throughout
import Mathlib.Logic.Function.Basic

/-!
# Convergence of the replication graph

Each client applies the deltas that are built for it to a mirror. When the caller marks what changes
and budgets are unlimited, every delta applies, and after each tick the mirror of a client is the
list of the tracked entities in its view with their current state.
-/

namespace Sdec.Repgraph

open Rust Runs Codec Sorted

variable {Vec3 F32 : Type} {inRadius : Vec3 → Vec3 → F32 → Bool}
  {graph : ReplicationGraph Vec3 F32} {state : ClientState Vec3 F32} {previous : WorldView}
  {id : EntityId}

/-! ## The run -/

/-- The mirrors after each client has applied its delta. -/
def applyAll (mirrors : ClientId → List EntitySnapshot) (deltas : List (ClientId × ClientDelta)) :
    Outcome CodecError (ClientId → List EntitySnapshot) :=
  deltas.foldlM (fun mirrors (client, delta) => do
    let mirror ← applyChanges (mirrors client) delta.destroys delta.creates delta.updates
    return Function.update mirrors client mirror) mirrors

/-- The mirrors after some ticks. -/
def mirrorTicks (inRadius : Vec3 → Vec3 → F32 → Bool) (graph : ReplicationGraph Vec3 F32)
    (mirrors : ClientId → List EntitySnapshot) :
    List (Tick Vec3 F32) → Outcome CodecError (ClientId → List EntitySnapshot)
  | [] => return mirrors
  | tick :: ticks => do
      let mirrors ← applyAll mirrors (tick.deltas inRadius graph)
      mirrorTicks inRadius (tick.finish inRadius graph) mirrors ticks

/-- The old state of an entity with the listed components brought to their new values. -/
def bring (dirty : List ComponentId) (old new : EntitySnapshot) : EntitySnapshot :=
  { old with
    components :=
      List.zipWith (fun o n => if n.id ∈ dirty then n else o) old.components new.components }

/-- What a caller owes the graph in a tick. An entity that stays tracked keeps its component set,
each component that has changed since the previous tick is listed as dirty, and an update of the
world brings the listed components to their current values, or is left out when they have them
already. -/
structure Tick.Faithful (previous : WorldView) (graph : ReplicationGraph Vec3 F32)
    (tick : Tick Vec3 F32) : Prop where
  complete : tick.Complete graph
  named : tick.world.Named
  clients_kept : ∀ client, .removeClient client ∉ tick.requests
  unlimited : ∀ client view, .upsertClient client view ∈ tick.requests → view.budget = .unlimited
  no_reuse : tick.requests.Pairwise fun a b =>
    ∀ id, a = .removeEntity id → ∀ position dirty, b ≠ .updateEntity id position dirty
  stable : ∀ id ∈ graph.entities, id ∈ (tick.prepare graph).entities →
    (tick.world.snapshot id).components.map ComponentSnapshot.id
      = (previous.snapshot id).components.map ComponentSnapshot.id
  marked : ∀ id ∈ graph.entities, id ∈ (tick.prepare graph).entities →
    ∀ pair ∈ (previous.snapshot id).components.zip (tick.world.snapshot id).components,
      pair.1 ≠ pair.2 → ∃ position dirty, .updateEntity id position dirty ∈ tick.requests
        ∧ pair.2.id ∈ dirty
  update_some : ∀ id ∈ graph.entities, id ∈ (tick.prepare graph).entities → ∀ dirty update,
    tick.world.update id dirty = some update →
      update.components.foldlM Delta.applyComponent (previous.snapshot id)
        = .ok (bring dirty (previous.snapshot id) (tick.world.snapshot id))
  update_none : ∀ id ∈ graph.entities, id ∈ (tick.prepare graph).entities → ∀ dirty,
    tick.world.update id dirty = none →
      bring dirty (previous.snapshot id) (tick.world.snapshot id) = previous.snapshot id

/-! ## Requests -/

/-- Requests that do not add an entity leave it untracked. -/
theorem handle_all_untracked {requests : List (Request Vec3 F32)} (h : id ∉ graph.entities)
    (hno : ∀ position dirty, .updateEntity id position dirty ∉ requests) :
    id ∉ (requests.foldl ReplicationGraph.handle graph).entities := by
  induction requests generalizing graph with
  | nil => exact h
  | cons request requests ih =>
      refine ih ?_ fun position dirty hmem => hno position dirty (List.mem_cons_of_mem _ hmem)
      cases request with
      | updateEntity entity position components =>
          have hne : entity ≠ id := fun heq => hno position components (heq ▸ List.mem_cons_self)
          rw [ReplicationGraph.handle, ReplicationGraph.updateEntity]
          split
          · exact h
          · simp [Std.TreeMap.mem_insert, hne, h]
      | removeEntity entity => simp [ReplicationGraph.handle, ReplicationGraph.removeEntity, h]
      | setEntityPriority entity priority =>
          rwa [ReplicationGraph.handle, ReplicationGraph.setEntityPriority, Std.TreeMap.mem_modify]
      | upsertClient client view => exact h
      | removeClient client => exact h

/-- An entity that is removed in a tick and not added again is untracked at its end. -/
theorem Tick.Faithful.removed_untracked {tick : Tick Vec3 F32} (h : tick.Faithful previous graph)
    (hremoved : .removeEntity id ∈ tick.requests) : id ∉ (tick.prepare graph).entities := by
  obtain ⟨front, back, hsplit⟩ := List.append_of_mem hremoved
  have hpairs := h.no_reuse
  rw [hsplit, List.pairwise_append, List.pairwise_cons] at hpairs
  rw [Tick.prepare, hsplit, List.foldl_append, List.foldl_cons]
  refine handle_all_untracked ?_ fun position dirty hmem =>
    hpairs.2.1.1 _ hmem id rfl position dirty rfl
  simp [ReplicationGraph.handle, ReplicationGraph.removeEntity]

/-- Requests with unlimited budgets leave every client an unlimited budget. -/
theorem handle_all_unlimited {requests : List (Request Vec3 F32)}
    (h : ∀ (client : ClientId) (state : ClientState Vec3 F32), graph.clients[client]? = some state →
      state.view.budget = .unlimited)
    (hviews : ∀ client view, .upsertClient client view ∈ requests → view.budget = .unlimited)
    {client : ClientId}
    (hstate : (requests.foldl ReplicationGraph.handle graph).clients[client]? = some state) :
    state.view.budget = .unlimited := by
  induction requests generalizing graph with
  | nil => exact h client state hstate
  | cons request requests ih =>
      refine ih ?_ (fun client view hmem => hviews client view (List.mem_cons_of_mem _ hmem)) hstate
      intro other state hstate
      cases request with
      | updateEntity entity position components =>
          rw [ReplicationGraph.handle, ReplicationGraph.updateEntity] at hstate
          split at hstate <;> exact h other state hstate
      | removeEntity entity => exact h other state hstate
      | setEntityPriority entity priority => exact h other state hstate
      | upsertClient client view =>
          rw [ReplicationGraph.handle, ReplicationGraph.upsertClient, Std.TreeMap.getElem?_insert]
            at hstate
          split at hstate
          · cases hstate
            exact hviews client view List.mem_cons_self
          · exact h other state hstate
      | removeClient client =>
          rw [ReplicationGraph.handle, ReplicationGraph.removeClient, Std.TreeMap.getElem?_erase]
            at hstate
          split at hstate
          · cases hstate
          · exact h other state hstate

/-! ## The states of entities -/

/-- When every component that has changed is listed, bringing the listed ones to their new values
gives the new state. -/
theorem bring_eq {dirty : List ComponentId} {old new : EntitySnapshot} (hid : old.id = new.id)
    (hlen : old.components.length = new.components.length)
    (hmarked : ∀ pair ∈ old.components.zip new.components, pair.1 ≠ pair.2 → pair.2.id ∈ dirty) :
    bring dirty old new = new := by
  obtain ⟨id, old⟩ := old
  obtain ⟨_, new⟩ := new
  cases hid
  change old.length = new.length at hlen
  refine congrArg (EntitySnapshot.mk id) (List.ext_getElem (by simp [hlen]) fun i h _ => ?_)
  rw [List.getElem_zipWith]
  split
  · rfl
  · rename_i hout
    by_contra hne
    have hi : i < (old.zip new).length := by
      rw [List.length_zip]
      simpa using h
    have hpair := hmarked (old.zip new)[i] (List.getElem_mem hi)
    rw [List.getElem_zip] at hpair
    exact hout (hpair hne)

/-- With nothing listed the old state stays. -/
theorem bring_nil {old new : EntitySnapshot}
    (hlen : old.components.length = new.components.length) : bring [] old new = old := by
  refine congrArg (EntitySnapshot.mk old.id) (List.ext_getElem (by simp [hlen]) fun i h _ => ?_)
  rw [List.getElem_zipWith, if_neg List.not_mem_nil]

/-- The update taken for an entity that stays tracked brings its previous state to its current one,
and where no update is taken they are the same. -/
def Refreshes (previous world : WorldView) (graph : ReplicationGraph Vec3 F32)
    (id : EntityId) : Prop :=
  (∀ update, graph.updateOf world id = some update →
    update.components.foldlM Delta.applyComponent (previous.snapshot id) = .ok (world.snapshot id))
      ∧
  (graph.updateOf world id = none → previous.snapshot id = world.snapshot id)

theorem Tick.Faithful.refreshes {tick : Tick Vec3 F32} (h : tick.Faithful previous graph)
    (hprevious : previous.Named) (hclean : Clean graph) (hbefore : id ∈ graph.entities)
    (hafter : id ∈ (tick.prepare graph).entities) :
    Refreshes previous tick.world (tick.prepare graph) id := by
  obtain ⟨entry, hentry⟩ : ∃ entry, graph.entities[id]? = some entry := by
    rw [Std.TreeMap.mem_iff_isSome_getElem?] at hbefore
    exact Option.isSome_iff_exists.mp hbefore
  obtain ⟨entry', hentry', hdirty⟩ := handle_all_entity hentry fun hremoved =>
    h.removed_untracked hremoved hafter
  rw [hclean.dirty id entry hentry, ← marks] at hdirty
  rw [← Tick.prepare] at hentry'
  have hlen : (previous.snapshot id).components.length
      = (tick.world.snapshot id).components.length := by
    have := congrArg List.length (h.stable id hbefore hafter)
    simpa using this.symm
  have hbring : bring (marks id tick.requests) (previous.snapshot id) (tick.world.snapshot id)
      = tick.world.snapshot id := by
    refine bring_eq ((hprevious.snapshot id).trans (h.named.snapshot id).symm) hlen ?_
    intro pair hpair hne
    obtain ⟨position, dirty, hmem, hin⟩ := h.marked id hbefore hafter pair hpair hne
    exact mem_marks_from.mpr (.inr ⟨position, dirty, hmem, hin⟩)
  refine ⟨fun update hupdate => ?_, fun hnone => ?_⟩
  · obtain ⟨-, e, he, -, hu⟩ := (updateOf_eq_some h.named).mp hupdate
    rw [hentry'] at he
    cases he
    rw [hdirty] at hu
    rw [h.update_some id hbefore hafter _ _ hu, hbring]
  · by_cases hmarks : marks id tick.requests = []
    · rw [← hbring, hmarks, bring_nil hlen]
    · rw [← hbring]
      refine (h.update_none id hbefore hafter _ ?_).symm
      rw [ReplicationGraph.updateOf, hentry'] at hnone
      simpa [hdirty, hmarks] using hnone

/-! ## One client -/

variable {world : WorldView} {client : ClientId}

/-- No list of ascending ids is longer than an unlimited budget. -/
theorem length_le_unlimited {ids : List EntityId} (h : ids.Pairwise fun a b => a.raw < b.raw) :
    ids.length ≤ usizeMax := by
  have hnats : (ids.map fun id => id.raw.toNat).Pairwise (· < ·) := List.pairwise_map.mpr h
  have hle := length_le_of_ascending hnats (fun n _ => Nat.zero_le n) fun n hn => by
    obtain ⟨id, -, rfl⟩ := List.mem_map.mp hn
    exact id.raw.toNat_lt
  rw [List.length_map] at hle
  exact Nat.le_trans hle (by decide)

/-- An unlimited budget cuts nothing. -/
theorem apply_budget_unlimited (hworld : world.Named) :
    applyBudget (graph.pendingDelta inRadius state world) .unlimited
      = graph.pendingDelta inRadius state world := by
  have hrelevant : (graph.relevant inRadius state.view).Pairwise fun a b => a.raw < b.raw := by
    rw [relevant_eq]
    exact (keys_ascend _).filter _
  have hcreates : (graph.pendingDelta inRadius state world).creates.length ≤ usizeMax := by
    rw [← List.length_map, pending_creates_ids hworld]
    exact length_le_unlimited (hrelevant.filter _)
  have hupdates : (graph.pendingDelta inRadius state world).updates.length ≤ usizeMax := by
    rw [← List.length_map, pending_updates_ids hworld]
    exact length_le_unlimited ((keys_ascend _).filter _)
  have hdestroys : (graph.pendingDelta inRadius state world).destroys.length ≤ usizeMax := by
    rw [pending_destroys_eq]
    exact length_le_unlimited ((set_ascend _).filter _)
  rw [applyBudget, ClientBudget.unlimited, List.take_of_length_le hcreates,
    List.take_of_length_le hupdates, List.take_of_length_le hdestroys]

/-- The previous states of the known entities mirror them. -/
theorem mirrors_snapshots (hprevious : previous.Named) (known : Std.TreeSet EntityId) :
    Mirrors known (known.toList.map previous.snapshot) where
  ascending := by
    refine List.pairwise_map.mpr ((set_ascend known).imp fun {a b} hlt => ?_)
    rw [hprevious.snapshot, hprevious.snapshot]
    exact hlt
  mem id := by
    rw [List.map_map, Function.comp_def]
    simp [hprevious.snapshot]

/-- An entity in view is tracked. -/
theorem mem_entities_of_in_view {view : ClientView Vec3 F32} {id : EntityId}
    (h : graph.inView inRadius view id) : id ∈ graph.entities := by
  obtain ⟨entry, hentry⟩ := tracked_of_in_view h
  rw [Std.TreeMap.mem_iff_isSome_getElem?, hentry]
  rfl

section Unlimited

variable (hworld : world.Named) (hstate : graph.clients[client]? = some state)
  (hbudget : state.view.budget = .unlimited)
  (hremoved : ∀ id ∈ graph.removedEntities, id ∉ graph.entities)

include hworld hstate

include hbudget in
/-- A client without a budget is sent all that is pending. -/
theorem build_unlimited : (graph.buildClientDelta inRadius client world).1
    = graph.pendingDelta inRadius state world := by
  have hbuild : Builds inRadius graph state world client _ _ := build_client_delta_of_some hstate
  rw [hbuild.pending, hbudget, apply_budget_unlimited hworld]

include hremoved

/-- No removed entity is updated, so the client can apply its delta. -/
theorem build_applicable :
    Applicable state.knownEntities ((graph.buildClientDelta inRadius client world).2.known client)
      (graph.buildClientDelta inRadius client world).1 := by
  have hbefore : graph.known client = state.knownEntities := by rw [ReplicationGraph.known, hstate]
  rw [← hbefore]
  refine (@build_applicable_iff _ _ inRadius _ _ _ hworld _ hstate).mpr fun id h => ?_
  have hupdatable := h.2.1
  simp only [ReplicationGraph.updatable, decide_eq_true_eq] at hupdatable
  exact hremoved id h.1 (mem_entities_of_in_view hupdatable.1)

include hbudget

/-- The client then knows what is relevant: what is known and leaves is destroyed, the rest is
created. -/
theorem known_after_unlimited (id : EntityId) :
    id ∈ (graph.buildClientDelta inRadius client world).2.known client
      ↔ id ∈ graph.relevant inRadius state.view := by
  have happlicable := @build_applicable _ _ inRadius _ _ _ _ hworld hstate hremoved
  rw [happlicable.next_known, build_unlimited hworld hstate hbudget, pending_creates_ids hworld,
    pending_destroys_eq]
  simp only [List.mem_filter, Std.TreeSet.mem_toList, ReplicationGraph.leaving, mem_relevant,
    decide_eq_true_eq]
  have hout : graph.inView inRadius state.view id → id ∉ graph.removedEntities := fun hview hin =>
    hremoved id hin (mem_entities_of_in_view hview)
  tauto

/-- A client whose mirror holds the previous states of the entities it knows applies its delta, and
then its mirror holds the current states of the relevant entities, which are the ones it then
knows. -/
theorem client_converges (hprevious : previous.Named)
    (hrefreshes : ∀ id ∈ state.knownEntities, id ∈ graph.entities →
      Refreshes previous world graph id)
    {delta : ClientDelta} (hdelta : delta = (graph.buildClientDelta inRadius client world).1) :
    applyChanges (state.knownEntities.toList.map previous.snapshot) delta.destroys delta.creates
        delta.updates
        = .ok ((graph.relevant inRadius state.view).map world.snapshot)
      ∧ ∀ id, id ∈ (graph.buildClientDelta inRadius client world).2.known client
        ↔ id ∈ graph.relevant inRadius state.view := by
  have hnext (id : EntityId) :=
    @known_after_unlimited _ _ inRadius _ _ _ _ hworld hstate hbudget hremoved id
  have happlicable := @build_applicable _ _ inRadius _ _ _ _ hworld hstate hremoved
  have hpending := hdelta.trans (build_unlimited hworld hstate hbudget)
  rw [← hdelta] at happlicable
  generalize (graph.buildClientDelta inRadius client world).2 = next at happlicable hnext ⊢
  obtain ⟨remaining, merged, hdestroy, hcreate, hmerged, hfound⟩ :=
    happlicable.apply_passes (mirrors_snapshots hprevious _)
  have hids : merged.map EntitySnapshot.id = graph.relevant inRadius state.view := by
    refine @eq_of_mem_iff _ _ _ _ _ EntityId.raw _ _ ?_ ?_ fun id => ?_
    · exact (List.pairwise_map (R := fun (a b : EntityId) => a.raw < b.raw)).mpr hmerged.ascending
    · rw [relevant_eq]
      exact (keys_ascend _).filter _
    · rw [hmerged.mem, hnext]
  have hupdates (u : DeltaUpdateEntity) : u ∈ delta.updates
      ↔ graph.inView inRadius state.view u.id ∧ u.id ∈ state.knownEntities
        ∧ graph.updateOf world u.id = some u := by rw [hpending, mem_pending_updates hworld]
  refine ⟨?_, hnext⟩
  rw [applyChanges, hdestroy]
  simp only [ok_bind, hcreate]
  rw [apply_updates_eq hmerged.ascending (happlicable.updates_ascend.imp fun hlt heq => by
      rw [heq] at hlt
      exact UInt32.lt_irrefl _ hlt)
    (fun e => world.snapshot e.id) fun e => hworld.snapshot e.id]
  · rw [← hids, List.map_map]
    refine congrArg Except.ok (List.map_congr_left fun e he => ?_)
    split
    · rfl
    · rename_i hout
      rcases (hfound e).mp he with ⟨he, hkept⟩ | he
      · -- A known entity that is not updated has not changed.
        obtain ⟨id, hid, rfl⟩ := List.mem_map.mp he
        rw [hprevious.snapshot] at hout hkept
        have hknown := Std.TreeSet.mem_toList.mp hid
        have hview : graph.inView inRadius state.view id := by
          rw [← mem_relevant, ← hnext, happlicable.next_known]
          exact .inl ⟨hknown, hkept⟩
        rw [Function.comp_apply, hprevious.snapshot]
        refine (hrefreshes id hknown (mem_entities_of_in_view hview)).2 ?_
        cases hu : graph.updateOf world id with
        | none => rfl
        | some u =>
            have hid := ((updateOf_eq_some hworld).mp hu).1
            refine absurd (List.mem_map.mpr ⟨u, (hupdates u).mpr ?_, hid⟩) hout
            rw [hid]
            exact ⟨hview, hknown, hu⟩
      -- A created entity is made as it is in the world.
      · have hcreated : e ∈ (graph.pendingDelta inRadius state world).creates := hpending ▸ he
        rw [ReplicationGraph.pendingDelta, List.mem_filterMap] at hcreated
        obtain ⟨id, -, hid⟩ := hcreated
        split at hid
        · cases hid
        · cases hid
          rw [Function.comp_apply, hworld.snapshot]
  · intro u hu
    obtain ⟨hview, hknown, -⟩ := (hupdates u).mp hu
    have hin : u.id ∈ merged.map EntitySnapshot.id := hids ▸ mem_relevant.mpr hview
    exact List.mem_map.mp hin
  · intro u hu e he hid
    obtain ⟨hview, hknown, hu'⟩ := (hupdates u).mp hu
    -- an updated entity was known, and is held as it was in the previous world
    have he' : e = previous.snapshot u.id := by
      rcases (hfound e).mp he with ⟨he, -⟩ | he
      · obtain ⟨id, -, rfl⟩ := List.mem_map.mp he
        rw [hprevious.snapshot] at hid
        rw [hid]
      · exact absurd (hid ▸ hknown) (happlicable.creates_unknown e he)
    rw [hid, he']
    exact (hrefreshes u.id hknown (mem_entities_of_in_view hview)).1 u hu'

end Unlimited

/-! ## One tick -/

variable {tick : Tick Vec3 F32} {mirrors : ClientId → List EntitySnapshot}

/-- Clients that each apply one delta. -/
theorem apply_all_eq {clients : List ClientId} (hnodup : clients.Nodup) (f : ClientId → ClientDelta)
    (g : ClientId → List EntitySnapshot)
    (h : ∀ client ∈ clients, applyChanges (mirrors client) (f client).destroys (f client).creates
      (f client).updates = .ok (g client)) :
    applyAll mirrors (clients.map fun client => (client, f client))
      = .ok fun client => if client ∈ clients then g client else mirrors client := by
  induction clients generalizing mirrors with
  | nil => simp [applyAll, pure, Except.pure]
  | cons client clients ih =>
      obtain ⟨hout, hnodup⟩ := List.nodup_cons.mp hnodup
      have hne {other : ClientId} (hother : other ∈ clients) : other ≠ client := fun heq =>
        hout (heq ▸ hother)
      have hrest := @ih (Function.update mirrors client (g client)) hnodup fun other hother => by
        rw [Function.update_of_ne (hne hother)]
        exact h other (List.mem_cons_of_mem _ hother)
      rw [applyAll, List.map_cons, List.foldlM_cons]
      simp only [h client List.mem_cons_self, ok_bind, pure_bind]
      refine hrest.trans (congrArg Except.ok (funext fun other => ?_))
      by_cases hother : other = client
      · subst hother
        simp [hout]
      · simp [hother]

/-- Between ticks, each mirror holds the states of the entities that its client knows, which are all
tracked. -/
structure Synced (graph : ReplicationGraph Vec3 F32) (world : WorldView)
    (mirrors : ClientId → List EntitySnapshot) : Prop where
  named : world.Named
  clean : Clean graph
  unlimited : ∀ (client : ClientId) (state : ClientState Vec3 F32),
    graph.clients[client]? = some state → state.view.budget = .unlimited
  tracked : ∀ client, ∀ id ∈ graph.known client, id ∈ graph.entities
  mirror : ∀ client, mirrors client = (graph.known client).toList.map world.snapshot

/-- A mirror of the tracked, relevant entities in their current state. -/
def Converged (inRadius : Vec3 → Vec3 → F32 → Bool) (graph : ReplicationGraph Vec3 F32)
    (world : WorldView) (mirrors : ClientId → List EntitySnapshot) : Prop :=
  ∀ (client : ClientId) (state : ClientState Vec3 F32), graph.clients[client]? = some state →
    mirrors client = (graph.relevant inRadius state.view).map world.snapshot
      ∧ Ascending (mirrors client)

/-- Clearing the dirty flags keeps the relevant entities. -/
theorem relevant_finish (hcomplete : tick.Complete graph) (view : ClientView Vec3 F32) :
    (tick.finish inRadius graph).relevant inRadius view
      = (tick.prepare graph).relevant inRadius view := by
  have hascend (graph : ReplicationGraph Vec3 F32) :
      (graph.relevant inRadius view).Pairwise fun a b => a.raw < b.raw := by
    rw [relevant_eq]
    exact (keys_ascend _).filter _
  refine eq_of_mem_iff (hascend _) (hascend _) fun id => ?_
  rw [mem_relevant, mem_relevant, ReplicationGraph.inView, ReplicationGraph.inView,
    finish_entities tick hcomplete]
  cases (tick.prepare graph).entities[id]? <;> rfl

/-- What the mirrors hold after a tick. -/
def currentMirror (inRadius : Vec3 → Vec3 → F32 → Bool) (tick : Tick Vec3 F32)
    (graph : ReplicationGraph Vec3 F32) (client : ClientId) : List EntitySnapshot :=
  match (tick.prepare graph).clients[client]? with
  | some state => ((tick.prepare graph).relevant inRadius state.view).map tick.world.snapshot
  | none => []

/-- In a faithful tick a client applies its delta, and then knows what is relevant to it. -/
theorem Synced.client_after_tick (h : Synced graph previous mirrors)
    (hfaithful : tick.Faithful previous graph)
    (hstate : (tick.prepare graph).clients[client]? = some state) {delta : ClientDelta}
    (hdelta : delta = ((tick.prepare graph).buildClientDelta inRadius client tick.world).1) :
    applyChanges (mirrors client) delta.destroys delta.creates delta.updates
        = .ok (currentMirror inRadius tick graph client)
      ∧ ((tick.finish inRadius graph).known client).toList
        = (tick.prepare graph).relevant inRadius state.view := by
  have hknown := @handle_all_known _ _ graph _ _ (hfaithful.clients_kept client)
  rw [← Tick.prepare, ReplicationGraph.known, hstate] at hknown
  obtain ⟨happly, hnext⟩ := client_converges hfaithful.named hstate
    (handle_all_unlimited h.unlimited hfaithful.unlimited hstate)
    (fun id hid => (handle_all_removed.mp hid).elim (fun hin => absurd hin (h.clean.removed id))
      hfaithful.removed_untracked) h.named
    (fun id hid hafter => hfaithful.refreshes h.named h.clean
      (h.tracked client id (hknown ▸ hid)) hafter) hdelta
  constructor
  · rw [h.mirror client, ← hknown, happly, currentMirror, hstate]
  · refine eq_of_mem_iff (set_ascend _) ?_ fun id => ?_
    · rw [relevant_eq]
      exact (keys_ascend _).filter _
    · rw [Std.TreeSet.mem_toList, ← hnext id, ReplicationGraph.known, ReplicationGraph.known,
        finish_clients hfaithful.complete (mem_clients hfaithful.complete hstate)]

/-- In a faithful tick every delta applies, and then the mirrors hold the current states of the
tracked, relevant entities. -/
theorem Synced.after_tick (h : Synced graph previous mirrors)
    (hfaithful : tick.Faithful previous graph) :
    ∃ next, applyAll mirrors (tick.deltas inRadius graph) = .ok next
      ∧ Synced (tick.finish inRadius graph) tick.world next
      ∧ Converged inRadius (tick.finish inRadius graph) tick.world next := by
  have hcomplete := hfaithful.complete
  have happly := @apply_all_eq mirrors _ hcomplete.nodup
    (fun client => ((tick.prepare graph).buildClientDelta inRadius client tick.world).1)
    (currentMirror inRadius tick graph) fun client hmem => by
      obtain ⟨state, hstate⟩ := state_of_mem hcomplete hmem
      exact (h.client_after_tick hfaithful hstate rfl).1
  have hmirror (client : ClientId) :
      (if client ∈ tick.clients then currentMirror inRadius tick graph client else mirrors client)
        = ((tick.finish inRadius graph).known client).toList.map tick.world.snapshot := by
    split
    · rename_i hmem
      obtain ⟨state, hstate⟩ := state_of_mem hcomplete hmem
      rw [(h.client_after_tick hfaithful hstate rfl).2, currentMirror, hstate]
    · rename_i hmem
      obtain ⟨hfinal, hnone⟩ := @finish_clients_of_not_mem _ _ inRadius _ _ _ hcomplete hmem
      have hknown := @handle_all_known _ _ graph _ _ (hfaithful.clients_kept client)
      rw [← Tick.prepare, ReplicationGraph.known, hnone] at hknown
      rw [h.mirror client, ← hknown, ReplicationGraph.known, hfinal]
      rfl
  have hrelevant {client : ClientId} {state : ClientState Vec3 F32}
      (hfinal : (tick.finish inRadius graph).clients[client]? = some state) :
      ((tick.finish inRadius graph).known client).toList
        = (tick.finish inRadius graph).relevant inRadius state.view := by
    obtain ⟨start, hstart, hview⟩ := finish_view hcomplete hfinal
    rw [(h.client_after_tick hfaithful hstart rfl).2, relevant_finish hcomplete, hview]
  refine ⟨_, ?_, ⟨hfaithful.named, clean_finish _ _, fun client state hfinal => ?_,
    fun client id hid => ?_, hmirror⟩, fun client state hfinal => ⟨?_, ?_⟩⟩
  · rw [Tick.deltas, (build_all_builds hcomplete.nodup).deltas, happly]
  · obtain ⟨start, hstart, hview⟩ := finish_view hcomplete hfinal
    rw [← hview]
    exact handle_all_unlimited h.unlimited hfaithful.unlimited hstart
  · cases hfinal : (tick.finish inRadius graph).clients[client]? with
    | none =>
        rw [ReplicationGraph.known, hfinal] at hid
        exact absurd hid Std.TreeSet.not_mem_emptyc
    | some state =>
        rw [← Std.TreeSet.mem_toList, hrelevant hfinal, mem_relevant] at hid
        exact mem_entities_of_in_view hid
  · rw [hmirror, hrelevant hfinal]
  · rw [hmirror]
    exact (mirrors_snapshots hfaithful.named _).ascending

/-! ## Whole runs -/

/-- A world of entities without components, before the first tick. -/
def emptyWorld : WorldView := ⟨fun id => ⟨id, []⟩, fun _ _ => none⟩

/-- The graph and the world after a tick. -/
def advance (inRadius : Vec3 → Vec3 → F32 → Bool) (before : ReplicationGraph Vec3 F32 × WorldView)
    (tick : Tick Vec3 F32) : ReplicationGraph Vec3 F32 × WorldView :=
  (tick.finish inRadius before.1, tick.world)

/-- Ticks that are faithful each to the one before. -/
def FaithfulRun (inRadius : Vec3 → Vec3 → F32 → Bool) :
    ReplicationGraph Vec3 F32 × WorldView → List (Tick Vec3 F32) → Prop :=
  Throughout (advance inRadius) fun before tick => tick.Faithful before.2 before.1

theorem synced_new (config : ReplicationConfig) :
    Synced (.new config : ReplicationGraph Vec3 F32) emptyWorld fun _ => [] where
  named := ⟨fun _ => rfl, fun _ _ _ h => (nomatch h)⟩
  clean := clean_new config
  unlimited client state h := by simp [ReplicationGraph.new] at h
  tracked client id h := by simp [ReplicationGraph.known, ReplicationGraph.new] at h
  mirror client := by simp [ReplicationGraph.known, ReplicationGraph.new]; rfl

/-- A faithful run from mirrors in sync ends with mirrors that hold the current states of the
tracked, relevant entities. -/
theorem Synced.run {ticks : List (Tick Vec3 F32)} (h : Synced graph previous mirrors)
    (hrun : FaithfulRun inRadius (graph, previous) (ticks ++ [tick])) :
    ∃ next, mirrorTicks inRadius graph mirrors (ticks ++ [tick]) = .ok next
      ∧ Converged inRadius (runTicks inRadius graph (ticks ++ [tick])) tick.world next := by
  induction ticks generalizing graph previous mirrors with
  | nil =>
      obtain ⟨next, happly, -, hconverged⟩ := h.after_tick hrun.1
      refine ⟨next, ?_, hconverged⟩
      rw [List.nil_append, mirrorTicks, happly]
      rfl
  | cons first ticks ih =>
      obtain ⟨next, happly, hsynced, -⟩ := h.after_tick hrun.1
      obtain ⟨final, hfinal, hconverged⟩ := ih hsynced hrun.2
      refine ⟨final, ?_, hconverged⟩
      rw [List.cons_append, mirrorTicks, happly]
      exact hfinal

/-- In any run of faithful ticks every delta applies, and after each tick the mirror of each client
is the list of the tracked entities in its view with their current state, in order of their ids. -/
theorem replication_converges (config : ReplicationConfig) (ticks : List (Tick Vec3 F32))
    (tick : Tick Vec3 F32)
    (hrun : FaithfulRun inRadius (.new config, emptyWorld) (ticks ++ [tick])) :
    ∃ mirrors, mirrorTicks inRadius (.new config) (fun _ => []) (ticks ++ [tick]) = .ok mirrors
      ∧ Converged inRadius (runTicks inRadius (.new config) (ticks ++ [tick])) tick.world mirrors :=
  (synced_new config).run hrun

/-- A world whose entities have one component with one flag. -/
def flagWorld (flag : Bool) : WorldView where
  snapshot id := ⟨id, [⟨⟨1, nonzero_one⟩, [.bool flag]⟩]⟩
  update id dirty :=
    if ⟨1, nonzero_one⟩ ∈ dirty then some ⟨id, [⟨⟨1, nonzero_one⟩, [(0, .bool flag)]⟩]⟩ else none

/-- A client is sent an entity whose flag is off. -/
def flagOff : Tick Int Int where
  requests := [.upsertClient ⟨1⟩ ⟨0, 10, .unlimited⟩, .updateEntity ⟨5⟩ 3 []]
  world := flagWorld false
  clients := [⟨1⟩]

/-- The flag is turned on. -/
def flagOn : Tick Int Int where
  requests := [.updateEntity ⟨5⟩ 3 [⟨1, nonzero_one⟩]]
  world := flagWorld true
  clients := [⟨1⟩]

theorem flag_world_named (flag : Bool) : (flagWorld flag).Named where
  snapshot _ := rfl
  update id dirty u h := by
    simp only [flagWorld] at h
    split at h
    · cases h
      rfl
    · cases h

theorem flag_off_faithful : flagOff.Faithful emptyWorld (.new ⟨10⟩) := by
  have hempty {p : Prop} (id : EntityId)
      (h : id ∈ (ReplicationGraph.new ⟨10⟩ : ReplicationGraph Int Int).entities) : p :=
    absurd h Std.TreeMap.not_mem_emptyc
  exact ⟨complete_of_keys (by decide) (by decide), flag_world_named false, by simp [flagOff],
    by simp [flagOff], by simp [flagOff], fun id h => hempty id h, fun id h => hempty id h,
    fun id h => hempty id h, fun id h => hempty id h⟩

theorem flag_on_faithful :
    flagOn.Faithful (flagWorld false) (flagOff.finish lineRadius (.new ⟨10⟩)) := by
  refine ⟨complete_of_keys (by decide) (by decide), flag_world_named true, by simp [flagOn],
    by simp [flagOn], by simp [flagOn], fun id _ _ => rfl, fun id h _ pair hpair _ => ?_,
    fun id _ _ dirty u hu => ?_, fun id _ _ dirty hu => ?_⟩
  · have hkeys : (flagOff.finish lineRadius (.new ⟨10⟩)).entities.keys = [⟨5⟩] := by decide
    rw [← Std.TreeMap.mem_keys, hkeys, List.mem_singleton] at h
    subst h
    refine ⟨3, [⟨1, by decide⟩], List.mem_singleton.mpr rfl, ?_⟩
    simp only [flagOn, flagWorld, List.zip_cons_cons, List.zip_nil_left,
      List.mem_singleton] at hpair
    rw [hpair]
    exact List.mem_singleton.mpr rfl
  · simp only [flagOn, flagWorld] at hu ⊢
    split at hu
    · rename_i hin
      cases hu
      simp only [bring, List.zipWith_cons_cons, List.zipWith_nil_left, if_pos hin]
      rfl
    · cases hu
  · simp only [flagOn, flagWorld] at hu ⊢
    split at hu
    · cases hu
    · rename_i hout
      simp only [bring, List.zipWith_cons_cons, List.zipWith_nil_left, if_neg hout]

/-- A run of two ticks in which a flag is turned on. -/
theorem replication_converges_flag :
    ∃ mirrors, mirrorTicks lineRadius (.new ⟨10⟩) (fun _ => []) [flagOff, flagOn] = .ok mirrors
      ∧ Converged lineRadius (runTicks lineRadius (.new ⟨10⟩) [flagOff, flagOn]) (flagWorld true)
        mirrors :=
  replication_converges ⟨10⟩ [flagOff] flagOn ⟨flag_off_faithful, flag_on_faithful, trivial⟩

end Sdec.Repgraph
