import Sdec.Bevy.Frames
import Sdec.Bevy.Sync

/-!
# Runs of client and server

Read `ticks_mirrored_iff` first: as long as the server has ids, the client mirrors the server after
every tick exactly if in each tick an entity that stays replicated is given a component just when it
loses one. Where it loses one of several the client destroys the entity, and where it is given a
second one the client makes another entity.
-/

namespace Sdec.Bevy

open Rust Runs

variable {ε κ V : Type} [DecidableEq κ] {bevy : BevySchema ε κ V}

/-! ## Ticks that break the mirror -/

section Breaks

/-- The pass over the created entities leaves the living ones alone and gives each created id a new
one. -/
theorem creates_effect (replica : Replica κ V) {creates : List EntitySnapshot}
    (hmakes : ∀ c ∈ creates, Makes bevy c.components) :
    ∃ after, creates.forM (applyCreate bevy) replica = .ok ⟨⟩ after
      ∧ (∀ e, replica.world.entities e ≠ none →
        after.world.entities e = replica.world.entities e)
      ∧ (∀ id, (¬ ∃ c ∈ creates, c.id = id) →
        after.entities.toEntity id = replica.entities.toEntity id)
      ∧ ∀ id, (∃ c ∈ creates, c.id = id) → ∀ e, replica.world.entities e ≠ none →
        after.entities.toEntity id ≠ some e := by
  induction creates generalizing replica with
  | nil =>
      refine ⟨replica, rfl, fun _ _ => rfl, fun _ _ => rfl, fun id h => ?_⟩
      obtain ⟨c, hc, _⟩ := h
      cases hc
  | cons c rest ih =>
      rw [List.forall_mem_cons] at hmakes
      obtain ⟨world, hfirst, _, _, hothers⟩ := apply_create_eq replica hmakes.1
      obtain ⟨after, hloop, hkept, hunnamed, hnamed⟩ :=
        ih ⟨world, replica.entities.register c.id replica.world.nextEntity⟩ hmakes.2
      have hlive {e : Entity} (he : replica.world.entities e ≠ none) :
          world.entities e = replica.world.entities e := hothers e (World.ne_next he)
      refine ⟨after, ?_, fun e he => ?_, fun id hid => ?_, fun id hid e he => ?_⟩
      · rw [List.forM, bind_apply, hfirst]
        exact hloop
      · exact (hkept e (by rw [hlive he]; exact he)).trans (hlive he)
      · rw [List.exists_mem_cons_iff, not_or] at hid
        rw [hunnamed id hid.2]
        exact EntityMap.register_of_ne fun heq => hid.1 heq.symm
      · by_cases hrest : ∃ c ∈ rest, c.id = id
        · exact hnamed id hrest e (by rw [hlive he]; exact he)
        · rw [hunnamed id hrest]
          rw [List.exists_mem_cons_iff] at hid
          obtain rfl := hid.resolve_right hrest
          show (replica.entities.register c.id _).toEntity c.id ≠ some e
          rw [EntityMap.register_self]
          exact fun heq => World.ne_next he (Option.some.inj heq).symm

/-- The pass over the updates neither maps an entity nor gives or takes a component. -/
theorem updates_effect (bevy : BevySchema ε κ V) (updates : List DeltaUpdateEntity)
    (replica : Replica κ V) :
    ((applyDeltaUpdates bevy updates).after replica).entities = replica.entities
      ∧ ∀ e, Replicated bevy replica.world e →
        Replicated bevy ((applyDeltaUpdates bevy updates).after replica).world e := by
  rw [after_congr (apply_delta_updates_eq updates replica), on_world_entities]
  refine ⟨rfl, fun e he => ?_⟩
  obtain ⟨adapter, hadapter, hget⟩ := snapshot_ne_nil_iff.mp he
  refine snapshot_ne_nil_iff.mpr ⟨adapter, hadapter, ?_⟩
  dsimp only
  rw [get_after_updates, ne_eq, Option.map_eq_none_iff]
  exact hget

variable {connection : Connection κ V} {tick : Tick κ V}

/-- Where the client is in sync after the tick, every entity that stays exchanged components, or
neither gained nor lost one. -/
theorem Synced.exchanges (hback : ∀ adapter ∈ bevy.adapters, adapter.ReadsBack)
    (h : Synced bevy connection.server connection.client) (hnumbers : connection.Numbers bevy tick)
    (hsync : InSync bevy (connection.step bevy tick).server (connection.step bevy tick).client) :
    connection.Exchanges bevy tick := by
  have hx := h.extracted hnumbers
  obtain ⟨changes, hchanges⟩ : ∃ changes, changes = (connection.extracted bevy tick).1 := ⟨_, rfl⟩
  obtain ⟨map', hmap'⟩ : ∃ map', map' = (connection.extracted bevy tick).2 := ⟨_, rfl⟩
  rw [← hchanges, ← hmap'] at hx
  obtain ⟨hdestroyed, hsame⟩ := h.mirrors.destroys changes.destroys
  obtain ⟨created, hcreates, hkept, hunnamed, hnamed⟩ :=
    creates_effect (changes.destroys.foldl Replica.destroy connection.client) fun c hc => by
      obtain ⟨e, _, _, hcomponents⟩ := (hx.creates c).mp hc
      rw [hcomponents]
      exact makes_snapshot hback
  obtain ⟨hentities, hreplicated⟩ := updates_effect bevy changes.updates created
  have hstep : connection.step bevy tick = ⟨⟨(connection.tracked tick).world, map'⟩,
      (applyDeltaUpdates bevy changes.updates).after created⟩ := by
    unfold Connection.step Connection.apply applyChanges
    rw [← hchanges, ← hmap', after_bind, apply_destroys_eq]
    dsimp only
    rw [after_bind, hcreates]
  rw [hstep] at hsync
  intro e hbefore hnow
  obtain ⟨id, e', hid, hmapped, hlive, hreads⟩ := h.matched hbefore
  have hid' := hx.extend.kept e id hid
  constructor
  · -- a second client entity would take the id of the first one, which stays
    intro hadded
    by_contra hremoved
    have hnot : id ∉ changes.destroys := fun hdestroy =>
      hremoved ((hx.destroyed_iff h.inverse hid).mp hdestroy)
    have hnamedId := (hx.created_iff hid').mpr hadded
    have hentity := (hsame id hnot).2 e' hmapped
    have hlive' : (changes.destroys.foldl Replica.destroy connection.client).world.entities e'
        ≠ none := by
      rw [hentity]
      exact hlive
    -- the first client entity is still replicated, so it has a partner by some id
    have hstays : Replicated bevy created.world e' := by
      unfold Replicated
      rw [snapshot_entity_congr ((hkept e' hlive').trans hentity), hreads.snapshot_eq]
      exact hbefore
    obtain ⟨other, ⟨_, otherId, _, hother⟩, _⟩ := hsync.received e' (hreplicated e' hstays)
    rw [hentities] at hother
    by_cases hotherNamed : ∃ c ∈ changes.creates, c.id = otherId
    · exact hnamed otherId hotherNamed e' hlive' hother
    · rw [hunnamed otherId hotherNamed] at hother
      refine hotherNamed (?_ : ∃ c ∈ changes.creates, c.id = otherId)
      -- which is the id that it had
      have heq : otherId = id := by
        have hinverse := hdestroyed.inverse
        rw [← hinverse] at hother
        have hfirst := (hsame id hnot).1.trans hmapped
        rw [← hinverse, hother] at hfirst
        exact Option.some.inj hfirst
      rw [heq]
      exact hnamedId
  · -- a destroyed entity would have no partner
    intro hremoved
    by_contra hadded
    have hnot : ¬ ∃ c ∈ changes.creates, c.id = id := fun hcreated =>
      hadded ((hx.created_iff hid').mp hcreated)
    obtain ⟨other, ⟨otherId, hotherId, hother⟩, _⟩ := hsync.sent e hnow
    have hotherId : map'.toId e = some otherId := hotherId
    rw [hid'] at hotherId
    cases hotherId
    rw [hentities, hunnamed id hnot] at hother
    obtain ⟨b, hb, hbid⟩ := (hdestroyed.mapped id).mpr ⟨other, hother⟩
    exact hb.2 (hbid ▸ (hx.destroyed_iff h.inverse hid).mpr hremoved)

end Breaks

/-! ## Runs -/

omit [DecidableEq κ] in
theorem synced_new :
    Synced bevy (Connection.new : Connection κ V).server Connection.new.client := by
  have hnone (e : Entity) : ¬ Replicated bevy (World.new : World κ V) e := by
    intro h
    obtain ⟨adapter, _, hget⟩ := snapshot_ne_nil_iff.mp h
    exact hget rfl
  refine ⟨EntityMap.inverse_new, EntityMap.bounded_new, fun e he => absurd he (hnone e),
    ⟨EntityMap.inverse_new, fun id => iff_of_false (fun h => ?_) fun h => ?_, fun b e hb => ?_,
      fun b e hb => ?_⟩, fun e he => absurd he (hnone e)⟩
  · obtain ⟨b, ⟨e, he, _⟩, _⟩ := h
    exact hnone e he
  · obtain ⟨e, he⟩ := h
    cases he
  · obtain ⟨e, he, _⟩ := hb
    exact absurd he (hnone e)
  · obtain ⟨e, he, _⟩ := hb
    exact absurd he (hnone e)

/-- As long as the server has ids for its entities, the client applies the changes of every tick and
mirrors the server after it exactly if in every tick each entity that stays replicated is given a
component just when it loses one. -/
theorem ticks_mirrored_iff (hback : ∀ adapter ∈ bevy.adapters, adapter.ReadsBack)
    (ticks : List (Tick κ V))
    (hnumbers : Throughout (Connection.step bevy) (Connection.Numbers bevy) .new ticks) :
    Throughout (Connection.step bevy) (Connection.Mirrored bevy) .new ticks
      ↔ Throughout (Connection.step bevy) (Connection.Exchanges bevy) .new ticks := by
  suffices hiff : ∀ connection : Connection κ V, Synced bevy connection.server connection.client →
      Throughout (Connection.step bevy) (Connection.Numbers bevy) connection ticks →
      (Throughout (Connection.step bevy) (Connection.Mirrored bevy) connection ticks
        ↔ Throughout (Connection.step bevy) (Connection.Exchanges bevy) connection ticks) from
    hiff _ synced_new hnumbers
  clear hnumbers
  induction ticks with
  | nil => exact fun _ _ _ => Iff.rfl
  | cons tick ticks ih =>
      intro connection hsynced hnumbers
      rw [throughout_cons, throughout_cons]
      rw [throughout_cons] at hnumbers
      constructor
      · intro h
        have hexchanges := hsynced.exchanges hback hnumbers.1 h.1.2
        have hnext := (hsynced.step hback hnumbers.1 hexchanges).2
        exact ⟨hexchanges, (ih _ hnext hnumbers.2).mp h.2⟩
      · intro h
        obtain ⟨hrun, hnext⟩ := hsynced.step hback hnumbers.1 h.1
        exact ⟨⟨hrun, hnext.in_sync⟩, (ih _ hnext hnumbers.2).mpr h.2⟩

/-! ## Schemas of flags -/

/-- With one component type an entity that stays replicated is given a component only after it lost
one. -/
theorem exchanges_of_sole {adapter : ComponentAdapter ε κ V} (connection : Connection κ V)
    (tick : Tick κ V) : connection.Exchanges (.sole adapter) tick := by
  intro e hbefore hnow
  have hsole {report : Entity → κ → Bool} :
      (BevySchema.sole adapter).Reports report e ↔ report e adapter.typeId = true := by
    unfold BevySchema.Reports BevySchema.sole
    simp only [List.mem_singleton, exists_eq_left]
  have hget {world : World κ V} (h : Replicated (.sole adapter) world e) :
      world.get e adapter.typeId ≠ none := by
    obtain ⟨other, hother, hget⟩ := snapshot_ne_nil_iff.mp h
    rwa [List.mem_singleton.mp hother] at hget
  have htracks : (connection.tracked tick).Tracks connection.server.world := tracked_tracks
  have hcell := htracks.cells e adapter.typeId
  rw [hsole, hsole]
  constructor
  · exact fun hadded => hcell.lost (hget hbefore) (.inr hadded)
  · intro hremoved
    by_contra hadded
    have hkept := hcell.kept (hget hnow) (Bool.eq_false_of_not_eq_true hadded)
    rw [hkept.1] at hremoved
    cases hremoved

/-- A component type with one flag. -/
def flagAdapter (k : Bool) (id : ComponentId) : ComponentAdapter Unit Bool Bool where
  typeId := k
  componentId := id
  fields := [⟨⟨1, nonzero_one⟩, .bool, none⟩]
  readFields flag := [.bool flag]
  applyField
    | 0, .bool flag => set flag
    | _, _ => fail ()
  fromFields
    | [.bool flag] => return flag
    | _ => fail ()

theorem flag_adapter_reads_back (k : Bool) (id : ComponentId) : (flagAdapter k id).ReadsBack where
  length _ _ := rfl
  fromFields v := ⟨v, rfl, rfl⟩
  applyField v w idx value h := by
    cases idx with
    | zero =>
        cases h
        exact ⟨v, rfl, rfl⟩
    | succ idx => cases h

/-- The sets are walked as they are. -/
def plainOrders : ExtractOrders :=
  ⟨⟨id, fun _ => .refl _⟩, ⟨id, fun _ => .refl _⟩, ⟨id, fun _ => .refl _⟩⟩

/-- Two entities with a flag, one after the other. -/
def flagTicks : List (Tick Bool Bool) :=
  [⟨[.spawn, .insert ⟨0⟩ false true], plainOrders⟩,
    ⟨[.mutate ⟨0⟩ false false, .spawn, .insert ⟨1⟩ false true], plainOrders⟩,
    ⟨[.remove ⟨0⟩ false, .despawn ⟨1⟩], plainOrders⟩]

/-- They are created, updated and destroyed. -/
theorem ticks_mirrored_flags :
    Throughout (Connection.step (.sole (flagAdapter false ⟨1, nonzero_one⟩)))
      (Connection.Mirrored (.sole (flagAdapter false ⟨1, nonzero_one⟩))) .new flagTicks := by
  refine (ticks_mirrored_iff (fun adapter hadapter => ?_) flagTicks ?_).mpr ?_
  · rw [List.mem_singleton.mp hadapter]
    exact flag_adapter_reads_back _ _
  · refine ⟨?_, ?_, ?_, trivial⟩
    all_goals
      unfold Connection.Numbers
      decide +kernel
  · exact ⟨exchanges_of_sole _ _, exchanges_of_sole _ _, exchanges_of_sole _ _, trivial⟩

theorem pair_types : ([flagAdapter false ⟨1, nonzero_one⟩, flagAdapter true ⟨2, nonzero_two⟩].map
    ComponentAdapter.typeId).Nodup := by decide

theorem pair_ids : ([flagAdapter false ⟨1, nonzero_one⟩, flagAdapter true ⟨2, nonzero_two⟩].map
    ComponentAdapter.componentId).Nodup := by decide

/-- A schema of two flags. -/
def pairSchema : BevySchema Unit Bool Bool where
  schema := ⟨[(flagAdapter false ⟨1, nonzero_one⟩).schemaDef,
    (flagAdapter true ⟨2, nonzero_two⟩).schemaDef]⟩
  adapters := [flagAdapter false ⟨1, nonzero_one⟩, flagAdapter true ⟨2, nonzero_two⟩]
  types := pair_types
  ids := pair_ids

/-- An entity with two flags loses one. -/
def pairTicks : List (Tick Bool Bool) :=
  [⟨[.spawn, .insert ⟨0⟩ false true, .insert ⟨0⟩ true true], plainOrders⟩,
    ⟨[.remove ⟨0⟩ true], plainOrders⟩]

/-- The client destroys it. -/
theorem lost_component_breaks_mirror :
    (∀ adapter ∈ pairSchema.adapters, adapter.ReadsBack)
      ∧ ¬ Throughout (Connection.step pairSchema) (Connection.Mirrored pairSchema) .new
        pairTicks := by
  refine ⟨fun adapter hadapter => ?_, fun h => ?_⟩
  · rcases List.mem_cons.mp hadapter with rfl | hadapter
    · exact flag_adapter_reads_back _ _
    · rw [List.mem_singleton.mp hadapter]
      exact flag_adapter_reads_back _ _
  · have hsync := h.2.1.2
    have hreplicated : Replicated pairSchema
        (pairTicks.foldl (Connection.step pairSchema) .new).server.world ⟨0⟩ := by
      unfold Replicated
      decide +kernel
    have hserver : (pairTicks.foldl (Connection.step pairSchema) .new).server.entities.toId ⟨0⟩
        = some ⟨1⟩ := by decide +kernel
    have hclient : (pairTicks.foldl (Connection.step pairSchema) .new).client.entities.toEntity ⟨1⟩
        = none := by decide +kernel
    obtain ⟨e', ⟨id, hid, hmapped⟩, _⟩ := hsync.sent ⟨0⟩ hreplicated
    have hid' := hserver.symm.trans hid
    cases hid'
    exact absurd (hclient.symm.trans hmapped) (Option.some_ne_none e').symm

end Sdec.Bevy
