import Sdec.Bevy.Extract
import Sdec.Bevy.Mirror

/-!
# Components that read back

What an application promises of its component types, and what follows for the components that a
client makes and writes from those of a server. Read `ReadsBack` first.
-/

namespace Sdec.Bevy

open Rust

variable {ε κ V : Type}

/-- What an application promises of a component type: what is read of one component makes a
component that reads the same, and can be written into any other one, field by field. -/
structure ComponentAdapter.ReadsBack (adapter : ComponentAdapter ε κ V) : Prop where
  length : ∀ v w, (adapter.readFields v).length = (adapter.readFields w).length
  fromFields : ∀ v, ∃ w, adapter.fromFields (adapter.readFields v) = .ok w
    ∧ adapter.readFields w = adapter.readFields v
  applyField : ∀ v w idx value, (adapter.readFields v)[idx]? = some value →
    ∃ w', adapter.applyField idx value w = .ok () w'
      ∧ adapter.readFields w' = (adapter.readFields w).set idx value

/-- Writing all fields of a component into another one. -/
theorem ComponentAdapter.ReadsBack.applyFields {adapter : ComponentAdapter ε κ V}
    (h : adapter.ReadsBack) (v w : V) :
    ∃ w', adapter.applyFields ((adapter.readFields v).zipIdx.map Prod.swap) w = .ok ⟨⟩ w'
      ∧ adapter.readFields w' = adapter.readFields v := by
  -- `done` has been written, `tail` is what `w` still reads
  suffices hloop : ∀ rest done tail w, adapter.readFields v = done ++ rest →
      adapter.readFields w = done ++ tail → tail.length = rest.length →
      ∃ w', adapter.applyFields ((rest.zipIdx done.length).map Prod.swap) w = .ok ⟨⟩ w'
        ∧ adapter.readFields w' = done ++ rest from
    hloop (adapter.readFields v) [] (adapter.readFields w) w rfl rfl (h.length w v)
  intro rest
  induction rest with
  | nil =>
      intro done tail w _ hw hlength
      rw [List.length_eq_zero_iff.mp hlength] at hw
      exact ⟨w, rfl, hw⟩
  | cons x rest ih =>
      intro done tail w hv hw hlength
      cases tail with
      | nil => cases hlength
      | cons y tail =>
          have hx : (adapter.readFields v)[done.length]? = some x := by
            rw [hv, List.getElem?_append_right (Nat.le_refl _), Nat.sub_self]
            rfl
          obtain ⟨next, hnext, hread⟩ := h.applyField v w done.length x hx
          rw [hw, List.set_append_right _ _ (Nat.le_refl _), Nat.sub_self, List.set_cons_zero,
            List.append_cons] at hread
          rw [List.append_cons] at hv
          obtain ⟨w', hrest, hread'⟩ := ih (done ++ [x]) tail next hv hread (Nat.succ.inj hlength)
          refine ⟨w', ?_, by rw [hread', ← List.append_cons]⟩
          unfold ComponentAdapter.applyFields at hrest ⊢
          rw [List.zipIdx_cons, List.map_cons, List.forM, bind_apply]
          rw [List.length_append, List.length_singleton] at hrest
          have hfirst : adapter.applyField (x, done.length).swap.1 (x, done.length).swap.2 w
              = .ok () next := hnext
          rw [hfirst]
          exact hrest

variable {bevy : BevySchema ε κ V} {server world : World κ V} {e e' : Entity}

/-- An entity reads as another one if every adapter reads the same of them. -/
theorem reads_snapshot_iff :
    Reads bevy world e' (bevy.snapshotEntity server e) ↔ ∀ adapter ∈ bevy.adapters,
      adapter.snapshotComponent world e' = adapter.snapshotComponent server e := by
  have hmem {world : World κ V} {e : Entity} {adapter : ComponentAdapter ε κ V}
      (hadapter : adapter ∈ bevy.adapters) {c : ComponentSnapshot} :
      adapter.snapshotComponent world e = some c
        ↔ c ∈ bevy.snapshotEntity world e ∧ c.id = adapter.componentId := by
    rw [mem_snapshot_entity, ComponentAdapter.snapshotComponent, Option.map_eq_some_iff]
    constructor
    · intro h
      obtain ⟨component, hget, rfl⟩ := h
      exact ⟨⟨adapter, hadapter, component, hget, rfl⟩, rfl⟩
    · intro h
      obtain ⟨⟨other, hother, component, hget, rfl⟩, hid⟩ := h
      obtain rfl := BevySchema.eq_of_component_id_eq hother hadapter hid
      exact ⟨component, hget, rfl⟩
  constructor
  · intro h adapter hadapter
    refine Option.ext fun c => ?_
    rw [hmem hadapter, hmem hadapter, List.Perm.mem_iff h]
  · intro h
    show (bevy.snapshotEntity world e').Perm (bevy.snapshotEntity server e)
    rw [BevySchema.snapshotEntity, List.filterMap_congr h]
    exact List.Perm.refl _

/-- What a mirrored entity reads is the list that the server reads. -/
theorem Reads.snapshot_eq (h : Reads bevy world e' (bevy.snapshotEntity server e)) :
    bevy.snapshotEntity world e' = bevy.snapshotEntity server e :=
  List.filterMap_congr (reads_snapshot_iff.mp h)

theorem makes_snapshot (hback : ∀ adapter ∈ bevy.adapters, adapter.ReadsBack) :
    Makes bevy (bevy.snapshotEntity server e) := by
  refine ⟨snapshot_entity_nodup, fun c hc => ?_⟩
  obtain ⟨adapter, hadapter, component, _, rfl⟩ := mem_snapshot_entity.mp hc
  exact ⟨adapter, hadapter, rfl, (hback adapter hadapter).fromFields component⟩

variable [DecidableEq κ]

/-- One component of an update, which both worlds have. -/
theorem apply_component_update {adapter : ComponentAdapter ε κ V} (hback : adapter.ReadsBack)
    (hadapter : adapter ∈ bevy.adapters) (hserver : server.get e adapter.typeId ≠ none)
    (hclient : world.get e' adapter.typeId ≠ none) :
    ∃ update w', adapter.updateComponent server e = some update
      ∧ bevy.applyComponentFields e' update.id update.fields world
        = .ok ⟨⟩ (world.set e' adapter.typeId w')
      ∧ adapter.snapshotComponent (world.set e' adapter.typeId w') e'
        = adapter.snapshotComponent server e := by
  obtain ⟨v, hv⟩ := Option.ne_none_iff_exists'.mp hserver
  obtain ⟨w, hw⟩ := Option.ne_none_iff_exists'.mp hclient
  obtain ⟨w', hrun, hread⟩ := hback.applyFields v w
  refine ⟨⟨adapter.componentId, (adapter.readFields v).zipIdx.map Prod.swap⟩, w', ?_, ?_, ?_⟩
  · unfold ComponentAdapter.updateComponent
    rw [hv]
    rfl
  · unfold BevySchema.applyComponentFields
    rw [bind_apply, BevySchema.known_adapter_of_mem hadapter]
    show adapter.applyUpdate e' _ world = _
    rw [ComponentAdapter.apply_update_of_some hw]
    refine focus_of_ok ?_
    unfold Call.mapErr
    rw [hrun]
  · unfold ComponentAdapter.snapshotComponent
    rw [World.get_set (World.ne_none_of_get hclient), if_pos ⟨rfl, rfl⟩, hv, Option.map_some,
      Option.map_some, hread]

/-- The loop over the components of an update, each of which both worlds have. -/
theorem apply_component_updates (hback : ∀ adapter ∈ bevy.adapters, adapter.ReadsBack)
    {adapters : List (ComponentAdapter ε κ V)}
    (hadapters : ∀ adapter ∈ adapters, adapter ∈ bevy.adapters)
    (hserver : ∀ adapter ∈ adapters, server.get e adapter.typeId ≠ none)
    (hclient : ∀ adapter ∈ adapters, world.get e' adapter.typeId ≠ none)
    (hlive : world.entities e' ≠ none) :
    ∃ after, (adapters.filterMap fun adapter => adapter.updateComponent server e).forM
          (fun component => bevy.applyComponentFields e' component.id component.fields) world
        = .ok ⟨⟩ after
      ∧ (∀ adapter ∈ adapters,
        adapter.snapshotComponent after e' = adapter.snapshotComponent server e)
      ∧ (∀ adapter ∈ bevy.adapters, adapter ∉ adapters →
        adapter.snapshotComponent after e' = adapter.snapshotComponent world e')
      ∧ after.entities e' ≠ none
      ∧ ∀ other, other ≠ e' → after.entities other = world.entities other := by
  induction adapters generalizing world with
  | nil =>
      exact ⟨world, rfl, fun adapter h => absurd h List.not_mem_nil, fun _ _ _ => rfl, hlive,
        fun _ _ => rfl⟩
  | cons adapter rest ih =>
      rw [List.forall_mem_cons] at hadapters hserver hclient
      obtain ⟨update, w', hupdate, hfirst, hone⟩ := apply_component_update
        (hback adapter hadapters.1) hadapters.1 hserver.1 hclient.1
      have hself : (world.set e' adapter.typeId w').get e' adapter.typeId = some w' := by
        rw [World.get_set hlive, if_pos ⟨rfl, rfl⟩]
      -- adapters of other types do not see the component that is written
      have hget (other : ComponentAdapter ε κ V) (hother : other ∈ bevy.adapters)
          (hne : other ≠ adapter) : (world.set e' adapter.typeId w').get e' other.typeId
            = world.get e' other.typeId := by
        rw [World.get_set hlive,
          if_neg fun hboth => hne (BevySchema.eq_of_type_eq hother hadapters.1 hboth.2)]
      -- an adapter may come again, and then finds what was written
      have hclient' : ∀ other ∈ rest,
          (world.set e' adapter.typeId w').get e' other.typeId ≠ none := by
        intro other hother
        by_cases heq : other = adapter
        · rw [heq, hself]
          exact Option.some_ne_none _
        · rw [hget other (hadapters.2 other hother) heq]
          exact hclient.2 other hother
      obtain ⟨after, hloop, hwritten, hkept, hafter, hothers⟩ :=
        ih hadapters.2 hserver.2 hclient' (World.set_ne_none hlive)
      refine ⟨after, ?_, fun other hother => ?_, fun other hother hnot => ?_, hafter,
        fun other hne => (hothers other hne).trans (World.set_of_ne hne)⟩
      · rw [List.filterMap_cons, hupdate]
        dsimp only
        rw [List.forM, bind_apply, hfirst]
        exact hloop
      · by_cases hmem : other ∈ rest
        · exact hwritten other hmem
        · obtain rfl : other = adapter := (List.mem_cons.mp hother).resolve_right hmem
          rw [hkept other hadapters.1 hmem, hone]
      · rw [List.mem_cons, not_or] at hnot
        rw [hkept other hother hnot.2]
        unfold ComponentAdapter.snapshotComponent
        rw [hget other hother hnot.1]

end Sdec.Bevy
