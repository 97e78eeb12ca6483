import Sdec.Bevy.Extracted
import Sdec.Bevy.ReadBack

/-!
# Client and server worlds

A server extracts the changes of each tick and a client applies them. Read `Synced.step` first: a
tick in which an entity that stays replicated is given a component just when it loses one keeps the
client a mirror of the server.
-/

namespace Sdec.Bevy

open Rust

variable {ε κ V : Type}

/-! ## Mirrors -/

/-- Two entities that the two maps give one id. -/
def Matched (server client : Replica κ V) (e e' : Entity) : Prop :=
  ∃ id, server.entities.toId e = some id ∧ client.entities.toEntity id = some e'

/-- The replicated entities of the client are those of the server, with the same components. -/
structure InSync (bevy : BevySchema ε κ V) (server client : Replica κ V) : Prop where
  sent : ∀ e, Replicated bevy server.world e → ∃ e', Matched server client e e'
    ∧ bevy.snapshotEntity client.world e' = bevy.snapshotEntity server.world e
  received : ∀ e', Replicated bevy client.world e' →
    ∃! e, Replicated bevy server.world e ∧ Matched server client e e'

/-- The snapshot of a server. -/
def Serves (bevy : BevySchema ε κ V) (server : Replica κ V) (b : EntitySnapshot) : Prop :=
  ∃ e, Replicated bevy server.world e ∧ server.entities.toId e = some b.id
    ∧ b.components = bevy.snapshotEntity server.world e

/-- The client mirrors the snapshot of the server, whose ids are in order. -/
structure Synced (bevy : BevySchema ε κ V) (server client : Replica κ V) : Prop where
  inverse : server.entities.Inverse
  bounded : server.entities.Bounded
  known : ∀ e, Replicated bevy server.world e → server.entities.toId e ≠ none
  mirrors : Mirrors bevy (Serves bevy server) client
  tidy : Tidy bevy client

variable {bevy : BevySchema ε κ V} {server client : Replica κ V} {e e' : Entity}

/-- The entity that the client has for one of the server. -/
theorem Synced.matched (h : Synced bevy server client) (he : Replicated bevy server.world e) :
    ∃ id e', server.entities.toId e = some id ∧ client.entities.toEntity id = some e'
      ∧ client.world.entities e' ≠ none
      ∧ Reads bevy client.world e' (bevy.snapshotEntity server.world e) := by
  obtain ⟨id, hid⟩ := Option.ne_none_iff_exists'.mp (h.known e he)
  have hserves : Serves bevy server ⟨id, bevy.snapshotEntity server.world e⟩ := ⟨e, he, hid, rfl⟩
  obtain ⟨e', he'⟩ := (h.mirrors.mapped id).mp ⟨_, hserves, rfl⟩
  exact ⟨id, e', hid, he', h.mirrors.live _ _ hserves he', h.mirrors.reads _ _ hserves he'⟩

theorem Synced.in_sync (h : Synced bevy server client) : InSync bevy server client := by
  refine ⟨fun e he => ?_, fun e' he' => ?_⟩
  · obtain ⟨id, e', hid, he', _, hreads⟩ := h.matched he
    exact ⟨e', ⟨id, hid, he'⟩, hreads.snapshot_eq⟩
  · obtain ⟨id, hid⟩ := h.tidy e' he'
    obtain ⟨b, ⟨e, he, hbid, hcomponents⟩, rfl⟩ := (h.mirrors.mapped id).mpr ⟨e', hid⟩
    refine ⟨e, ⟨he, b.id, hbid, hid⟩, fun other hother => ?_⟩
    obtain ⟨_, otherId, hotherId, hotherMapped⟩ := hother
    rw [← h.mirrors.inverse] at hid hotherMapped
    rw [hid] at hotherMapped
    cases hotherMapped
    exact h.inverse.eq_of_id_eq hotherId hbid

/-! ## Ticks -/

/-- A server and its client. -/
structure Connection (κ V : Type) where
  server : Replica κ V
  client : Replica κ V

/-- A server and a client with empty worlds. -/
def Connection.new : Connection κ V := ⟨⟨.new, .new⟩, ⟨.new, .new⟩⟩

/-- What happens in one tick: the changes that the server makes to its world, and the orders in
which its hash sets are walked. -/
structure Tick (κ V : Type) where
  changes : List (WorldChange κ V)
  orders : ExtractOrders

variable [DecidableEq κ]

namespace Connection

variable (bevy) (connection : Connection κ V) (tick : Tick κ V)

/-- The world of the server and what it reports at the end of the tick. -/
def tracked : TrackedWorld κ V :=
  tick.changes.foldl TrackedWorld.step (.clearTrackers connection.server.world)

/-- What the server extracts. -/
def extracted : BevyChangeSet × EntityMap :=
  bevy.extractChanges tick.orders (connection.tracked tick) connection.server.entities

/-- The client applies what the server extracts. -/
def apply : Call (ApplyError ε) (Replica κ V) Unit :=
  applyChanges bevy (connection.extracted bevy tick).1.creates
    (connection.extracted bevy tick).1.destroys (connection.extracted bevy tick).1.updates

/-- The tick, after which the server clears its trackers. -/
def step : Connection κ V :=
  ⟨⟨(connection.tracked tick).world, (connection.extracted bevy tick).2⟩,
    (connection.apply bevy tick).after connection.client⟩

/-- The client applies the changes, and mirrors the server then. -/
def Mirrored : Prop :=
  connection.apply bevy tick connection.client = .ok () (connection.step bevy tick).client
    ∧ InSync bevy (connection.step bevy tick).server (connection.step bevy tick).client

/-- The counter of ids has room for the entities that are created and have none. -/
def Numbers : Prop :=
  connection.server.entities.nextId.toNat + connection.server.entities.unnumbered
    (bevy.collect (connection.tracked tick) connection.server.entities).createEntities ≤ 0xFFFFFFFF

/-- An entity that has replicated components before and after the tick is given a new one, or one
again, just when it loses one. -/
def Exchanges : Prop :=
  ∀ e, Replicated bevy connection.server.world e →
    Replicated bevy (connection.tracked tick).world e →
      (bevy.Reports (connection.tracked tick).added e
        ↔ bevy.Reports (connection.tracked tick).removed e)

end Connection

/-! ## What a tick does to an entity -/

section Entity

variable {tracked : TrackedWorld κ V} {before : World κ V} (h : tracked.Tracks before)

include h

omit [DecidableEq κ]

theorem replicated_of_added (hadded : bevy.Reports tracked.added e) :
    Replicated bevy tracked.world e := by
  obtain ⟨adapter, hadapter, hreport⟩ := hadded
  exact snapshot_ne_nil_iff.mpr ⟨adapter, hadapter, (h.cells e _).present (.inl hreport)⟩

/-- A component that was not added was there before. -/
theorem get_before_of_not_added (hadded : ¬ bevy.Reports tracked.added e)
    {adapter : ComponentAdapter ε κ V} (hadapter : adapter ∈ bevy.adapters)
    (hget : tracked.world.get e adapter.typeId ≠ none) : before.get e adapter.typeId ≠ none := by
  have hnot : tracked.added e adapter.typeId = false := by
    rw [← Bool.not_eq_true]
    exact fun hreport => hadded ⟨adapter, hadapter, hreport⟩
  exact ((h.cells e _).kept hget hnot).2.1

/-- An entity that was given no component had one before if it has one. -/
theorem replicated_before (hadded : ¬ bevy.Reports tracked.added e)
    (hnow : Replicated bevy tracked.world e) : Replicated bevy before e := by
  obtain ⟨adapter, hadapter, hget⟩ := snapshot_ne_nil_iff.mp hnow
  exact snapshot_ne_nil_iff.mpr ⟨adapter, hadapter, get_before_of_not_added h hadded hadapter hget⟩

theorem replicated_of_changed (hchanged : bevy.Reports tracked.changed e) :
    Replicated bevy tracked.world e := by
  obtain ⟨adapter, hadapter, hreport⟩ := hchanged
  exact snapshot_ne_nil_iff.mpr ⟨adapter, hadapter, (h.cells e _).present (.inr hreport)⟩

/-- An entity without components that had one has lost it. -/
theorem removed_of_lost (hbefore : Replicated bevy before e)
    (hnow : ¬ Replicated bevy tracked.world e) :
    bevy.Reports tracked.removed e := by
  obtain ⟨adapter, hadapter, hget⟩ := snapshot_ne_nil_iff.mp hbefore
  refine ⟨adapter, hadapter, (h.cells e _).lost hget (.inl ?_)⟩
  by_contra hsome
  exact hnow (snapshot_ne_nil_iff.mpr ⟨adapter, hadapter, hsome⟩)

/-- An entity without reports reads as before, but for the changed components. -/
theorem snapshot_component_of_quiet (hadded : ¬ bevy.Reports tracked.added e)
    (hremoved : ¬ bevy.Reports tracked.removed e) {adapter : ComponentAdapter ε κ V}
    (hadapter : adapter ∈ bevy.adapters) (hchanged : ¬ tracked.changed e adapter.typeId = true) :
    adapter.snapshotComponent tracked.world e = adapter.snapshotComponent before e := by
  have hcell := h.cells e adapter.typeId
  have hnot : tracked.added e adapter.typeId = false := by
    rw [← Bool.not_eq_true]
    exact fun hreport => hadded ⟨adapter, hadapter, hreport⟩
  have hsame : tracked.world.get e adapter.typeId = before.get e adapter.typeId := by
    cases hnow : tracked.world.get e adapter.typeId with
    | some v =>
        rw [hnow] at hcell
        exact (hcell.kept (Option.some_ne_none v) hnot).2.2 (Bool.eq_false_of_not_eq_true hchanged)
    | none =>
        by_contra hbefore
        exact hremoved ⟨adapter, hadapter, hcell.lost (Ne.symm hbefore) (.inl hnow)⟩
  unfold ComponentAdapter.snapshotComponent
  rw [hsame]

end Entity

/-! ## What a tick does to the client -/

section Step

variable {connection : Connection κ V} {tick : Tick κ V}

omit [DecidableEq κ] in
theorem tracked_tracks [DecidableEq κ] :
    (connection.tracked tick).Tracks connection.server.world := tracks_run _ _

/-- What the server of a connection in sync extracts. -/
theorem Synced.extracted (h : Synced bevy connection.server connection.client)
    (hnumbers : connection.Numbers bevy tick) :
    Extracted bevy (connection.tracked tick) connection.server.entities
      (connection.extracted bevy tick).1 (connection.extracted bevy tick).2 :=
  Sdec.Bevy.extracted tracked_tracks h.inverse h.bounded
    (fun e hchanged hadded => h.known e (replicated_before tracked_tracks hadded
      (replicated_of_changed tracked_tracks hchanged))) hnumbers tick.orders

/-- The update of an entity rewrites what it read before the tick to what it reads after it. -/
theorem rewrites_of_changed (hback : ∀ adapter ∈ bevy.adapters, adapter.ReadsBack)
    (hadded : ¬ bevy.Reports (connection.tracked tick).added e)
    (hremoved : ¬ bevy.Reports (connection.tracked tick).removed e) {update : DeltaUpdateEntity}
    (hupdate : update.components = (bevy.adapters.filter fun adapter =>
      (connection.tracked tick).changed e adapter.typeId).filterMap
        fun adapter => adapter.updateComponent (connection.tracked tick).world e) :
    Rewrites bevy update (bevy.snapshotEntity connection.server.world e)
      (bevy.snapshotEntity (connection.tracked tick).world e) := by
  intro world e' hreads hlive
  have hbefore := reads_snapshot_iff.mp hreads
  have hchanged {adapter : ComponentAdapter ε κ V} :
      adapter ∈ (bevy.adapters.filter fun adapter =>
        (connection.tracked tick).changed e adapter.typeId)
      ↔ adapter ∈ bevy.adapters ∧ (connection.tracked tick).changed e adapter.typeId = true :=
    List.mem_filter
  have hpresent : ∀ adapter ∈ (bevy.adapters.filter fun adapter =>
      (connection.tracked tick).changed e adapter.typeId),
      (connection.tracked tick).world.get e adapter.typeId ≠ none :=
    fun adapter hadapter => (tracked_tracks.cells e _).present (.inr (hchanged.mp hadapter).2)
  have hclient : ∀ adapter ∈ (bevy.adapters.filter fun adapter =>
      (connection.tracked tick).changed e adapter.typeId),
      world.get e' adapter.typeId ≠ none := by
    -- the client has each component that the server had before
    intro adapter hadapter hnone
    have hhad := get_before_of_not_added tracked_tracks hadded (hchanged.mp hadapter).1
      (hpresent adapter hadapter)
    have hread := hbefore adapter (hchanged.mp hadapter).1
    unfold ComponentAdapter.snapshotComponent at hread
    rw [hnone, Option.map_none] at hread
    exact hhad (Option.map_eq_none_iff.mp hread.symm)
  obtain ⟨after, hloop, hwritten, hkept, hlive', hothers⟩ := apply_component_updates hback
    (fun adapter hadapter => (hchanged.mp hadapter).1) hpresent hclient hlive
  refine ⟨after, by rw [hupdate]; exact hloop, reads_snapshot_iff.mpr fun adapter hadapter => ?_,
    hlive', hothers⟩
  by_cases hreport : (connection.tracked tick).changed e adapter.typeId = true
  · exact hwritten adapter (hchanged.mpr ⟨hadapter, hreport⟩)
  · rw [hkept adapter hadapter fun hmem => hreport (hchanged.mp hmem).2, hbefore adapter hadapter,
      snapshot_component_of_quiet tracked_tracks hadded hremoved hadapter hreport]

/-- An entity that is not named in a report reads as before. -/
theorem snapshot_of_quiet (hadded : ¬ bevy.Reports (connection.tracked tick).added e)
    (hremoved : ¬ bevy.Reports (connection.tracked tick).removed e)
    (hchanged : ¬ bevy.Reports (connection.tracked tick).changed e) :
    bevy.snapshotEntity (connection.tracked tick).world e
      = bevy.snapshotEntity connection.server.world e :=
  List.filterMap_congr fun adapter hadapter => snapshot_component_of_quiet tracked_tracks hadded
    hremoved hadapter fun hreport => hchanged ⟨adapter, hadapter, hreport⟩

/-! ## What the lists do to the client -/

section Lists

variable {changes : BevyChangeSet} {map' : EntityMap}

/-- An entity that stays and is given no component loses none. -/
theorem Connection.Exchanges.not_removed (hexchanges : connection.Exchanges bevy tick)
    (hadded : ¬ bevy.Reports (connection.tracked tick).added e)
    (hnow : Replicated bevy (connection.tracked tick).world e) :
    ¬ bevy.Reports (connection.tracked tick).removed e := by
  have hbefore := replicated_before tracked_tracks hadded hnow
  exact fun hremoved => hadded ((hexchanges e hbefore hnow).mpr hremoved)

/-- What the entity of an update reads as after the tick. -/
def Connection.target (bevy : BevySchema ε κ V) (connection : Connection κ V) (tick : Tick κ V)
    (map' : EntityMap) (u : DeltaUpdateEntity) : List ComponentSnapshot :=
  ((map'.toEntity u.id).map (bevy.snapshotEntity (connection.tracked tick).world)).getD []

variable (hx : Extracted bevy (connection.tracked tick) connection.server.entities changes map')

include hx

theorem Extracted.target_eq {u : DeltaUpdateEntity} (hid : map'.toId e = some u.id) :
    connection.target bevy tick map' u = bevy.snapshotEntity (connection.tracked tick).world e := by
  unfold Connection.target
  rw [(hx.extend.inverse e u.id).mp hid]
  rfl

variable (h : Synced bevy connection.server connection.client)
  (hexchanges : connection.Exchanges bevy tick)

include h hexchanges

/-- A created entity that the client has is one of the destroyed. -/
theorem Synced.fresh_creates : ∀ c ∈ changes.creates, ∀ b,
    Serves bevy connection.server b ∧ b.id ∉ changes.destroys → b.id ≠ c.id := by
  intro c hc b hb heq
  obtain ⟨⟨e, hbefore, hid, _⟩, hkept⟩ := hb
  have hid' := hx.extend.kept e b.id hid
  have hadded := (hx.created_iff hid').mp ⟨c, hc, heq.symm⟩
  refine hkept ((hx.destroyed_iff h.inverse hid).mpr ?_)
  exact (hexchanges e hbefore (replicated_of_added tracked_tracks hadded)).mp hadded

/-- An entity that is given no component is one that the client has and keeps. -/
theorem Synced.keeps {id : EntityId} (hadded : ¬ bevy.Reports (connection.tracked tick).added e)
    (hnow : Replicated bevy (connection.tracked tick).world e) (hid : map'.toId e = some id) :
    Serves bevy connection.server ⟨id, bevy.snapshotEntity connection.server.world e⟩
      ∧ id ∉ changes.destroys := by
  have hbefore := replicated_before tracked_tracks hadded hnow
  obtain ⟨old, hold⟩ := Option.ne_none_iff_exists'.mp (h.known e hbefore)
  have hsame := hx.extend.kept e old hold
  rw [hid] at hsame
  cases hsame
  refine ⟨⟨e, hbefore, hold, rfl⟩, fun hdestroy => ?_⟩
  exact hexchanges.not_removed hadded hnow ((hx.destroyed_iff h.inverse hold).mp hdestroy)

/-- The update of an entity rewrites what the client has for it. -/
theorem Synced.rewrites (hback : ∀ adapter ∈ bevy.adapters, adapter.ReadsBack) :
    ∀ u ∈ changes.updates, ∃ b,
      ((Serves bevy connection.server b ∧ b.id ∉ changes.destroys) ∨ b ∈ changes.creates)
        ∧ b.id = u.id ∧ Rewrites bevy u b.components (connection.target bevy tick map' u) := by
  intro u hu
  obtain ⟨e, hchanged, hadded, hid, hcomponents⟩ := (hx.updates u).mp hu
  have hnow := replicated_of_changed tracked_tracks hchanged
  refine ⟨⟨u.id, bevy.snapshotEntity connection.server.world e⟩,
    .inl (h.keeps hx hexchanges hadded hnow hid), rfl, ?_⟩
  rw [hx.target_eq hid]
  exact rewrites_of_changed hback hadded (hexchanges.not_removed hadded hnow) hcomponents

/-- What the client has after the three passes is what the server has after the tick: the updated
entities, those that were kept and not updated, and the created ones. -/
theorem Synced.serves_iff (c : EntitySnapshot) :
    ((∃ u ∈ changes.updates, c = ⟨u.id, connection.target bevy tick map' u⟩)
        ∨ ((Serves bevy connection.server c ∧ c.id ∉ changes.destroys) ∨ c ∈ changes.creates)
          ∧ ∀ u ∈ changes.updates, c.id ≠ u.id)
      ↔ Serves bevy ⟨(connection.tracked tick).world, map'⟩ c := by
  have hT : (connection.tracked tick).Tracks connection.server.world := tracked_tracks
  constructor
  · intro hc
    rcases hc with ⟨u, hu, rfl⟩ | ⟨⟨⟨e, hbefore, hid, hcomponents⟩, hnot⟩ | hc, hnone⟩
    · obtain ⟨e, hchanged, _, hid, _⟩ := (hx.updates u).mp hu
      exact ⟨e, replicated_of_changed hT hchanged, hid, hx.target_eq hid⟩
    · -- it was kept, so it lost no component, was given none and was not updated
      have hid' := hx.extend.kept e c.id hid
      have hremoved : ¬ bevy.Reports (connection.tracked tick).removed e := fun hremoved =>
        hnot ((hx.destroyed_iff h.inverse hid).mpr hremoved)
      have hnow : Replicated bevy (connection.tracked tick).world e := by
        by_contra hlost
        exact hremoved (removed_of_lost hT hbefore hlost)
      have hadded : ¬ bevy.Reports (connection.tracked tick).added e := fun hadded =>
        hremoved ((hexchanges e hbefore hnow).mp hadded)
      have hchanged : ¬ bevy.Reports (connection.tracked tick).changed e := by
        intro hchanged
        obtain ⟨u, hu, huid⟩ := (hx.updated_iff hid').mpr ⟨hchanged, hadded⟩
        exact hnone u hu huid.symm
      exact ⟨e, hnow, hid', hcomponents.trans (snapshot_of_quiet hadded hremoved hchanged).symm⟩
    · obtain ⟨e, hadded, hid, hcomponents⟩ := (hx.creates c).mp hc
      exact ⟨e, replicated_of_added hT hadded, hid, hcomponents⟩
  · intro hc
    obtain ⟨e, hnow, hid, hcomponents⟩ := hc
    by_cases hadded : bevy.Reports (connection.tracked tick).added e
    · refine .inr ⟨.inr ((hx.creates c).mpr ⟨e, hadded, hid, hcomponents⟩), fun u hu heq => ?_⟩
      exact ((hx.updated_iff hid).mp ⟨u, hu, heq.symm⟩).2 hadded
    · by_cases hchanged : bevy.Reports (connection.tracked tick).changed e
      · obtain ⟨u, hu, huid⟩ := (hx.updated_iff hid).mpr ⟨hchanged, hadded⟩
        refine .inl ⟨u, hu, ?_⟩
        have hc : c = ⟨c.id, c.components⟩ := rfl
        rw [hc, hcomponents, ← huid, hx.target_eq (huid ▸ hid)]
      · obtain ⟨hserves, hnot⟩ := h.keeps hx hexchanges hadded hnow hid
        have hremoved := hexchanges.not_removed hadded hnow
        have hc : c = ⟨c.id, bevy.snapshotEntity connection.server.world e⟩ := by
          rw [← snapshot_of_quiet hadded hremoved hchanged, ← hcomponents]
        refine .inr ⟨.inl ⟨hc ▸ hserves, hnot⟩, fun u hu heq => ?_⟩
        exact hchanged ((hx.updated_iff hid).mp ⟨u, hu, heq.symm⟩).1

omit hexchanges in
/-- The server has an id for every entity that it replicates after the tick. -/
theorem Synced.known_after (hnow : Replicated bevy (connection.tracked tick).world e) :
    map'.toId e ≠ none := by
  by_cases hadded : bevy.Reports (connection.tracked tick).added e
  · exact hx.numbered e hadded
  · have hbefore := replicated_before tracked_tracks hadded hnow
    obtain ⟨id, hid⟩ := Option.ne_none_iff_exists'.mp (h.known e hbefore)
    rw [hx.extend.kept e id hid]
    exact Option.some_ne_none id

end Lists

/-- A tick in which every entity that stays exchanges components, or neither gains nor loses one,
keeps the client in sync. -/
theorem Synced.step (hback : ∀ adapter ∈ bevy.adapters, adapter.ReadsBack)
    (h : Synced bevy connection.server connection.client) (hnumbers : connection.Numbers bevy tick)
    (hexchanges : connection.Exchanges bevy tick) :
    connection.apply bevy tick connection.client = .ok () (connection.step bevy tick).client
      ∧ Synced bevy (connection.step bevy tick).server (connection.step bevy tick).client := by
  have hx := h.extracted hnumbers
  obtain ⟨changes, hchanges⟩ : ∃ changes, changes = (connection.extracted bevy tick).1 := ⟨_, rfl⟩
  obtain ⟨map', hmap'⟩ : ∃ map', map' = (connection.extracted bevy tick).2 := ⟨_, rfl⟩
  rw [← hchanges, ← hmap'] at hx
  -- the three passes over the client, one after the other
  obtain ⟨hdestroyed, -⟩ := h.mirrors.destroys changes.destroys
  have htidy := h.tidy.destroys changes.destroys
  have hmakes : ∀ c ∈ changes.creates, Makes bevy c.components := by
    intro c hc
    obtain ⟨e, _, _, hcomponents⟩ := (hx.creates c).mp hc
    rw [hcomponents]
    exact makes_snapshot hback
  obtain ⟨created, hcreates, hcreated, -, htidyCreated⟩ :=
    hdestroyed.creates hx.createsDistinct (h.fresh_creates hx hexchanges) hmakes
  obtain ⟨after, hupdates, hupdated, htidyUpdated⟩ :=
    hcreated.update_all hx.updatesDistinct (connection.target bevy tick map')
      (h.rewrites hx hexchanges hback)
  have hrun : connection.apply bevy tick connection.client = .ok () after := by
    unfold Connection.apply applyChanges
    rw [← hchanges, bind_apply, apply_destroys_eq]
    dsimp only
    rw [bind_apply, hcreates]
    exact hupdates
  have hstep : connection.step bevy tick = ⟨⟨(connection.tracked tick).world, map'⟩, after⟩ := by
    unfold Connection.step
    rw [after_of_ok hrun, ← hmap']
  rw [hstep]
  exact ⟨hrun, hx.extend.inverse, hx.extend.bounded, fun e hnow => h.known_after hx hnow,
    hupdated.congr (h.serves_iff hx hexchanges), htidyUpdated (htidyCreated htidy)⟩

end Step

end Sdec.Bevy
