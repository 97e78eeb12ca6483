import Sdec.Bevy.Schema

/-!
# Applying changes to a world

`apply_changes` and `apply_delta_updates`, after `sdec-bevy/src/apply.rs`: what a decoded delta does
to a world and the entity map beside it. Both are changed step by step, and a step that fails leaves
them as the steps before it made them.
-/

namespace Sdec.Bevy

open Rust

/-- A world and the entity map of its replicated entities. -/
structure Replica (κ V : Type) where
  world : World κ V
  entities : EntityMap

variable {ε κ V : Type}

/-- A replica with another world. -/
def Replica.withWorld (world : World κ V) (replica : Replica κ V) : Replica κ V :=
  ⟨world, replica.entities⟩

/-- A call on the world. -/
def onWorld {α : Type} (x : Call (ApplyError ε) (World κ V) α) :
    Call (ApplyError ε) (Replica κ V) α :=
  Call.focus Replica.world Replica.withWorld x

/-- One iteration of the first loop of `apply_changes`. -/
def applyDestroy (destroy : EntityId) : Call (ApplyError ε) (Replica κ V) Unit := do
  let replica ← get
  match replica.entities.entity destroy with
  | none => return
  | some entity =>
      set (Replica.mk (replica.world.despawn entity) (replica.entities.unregister destroy))

variable [DecidableEq κ]

/-- One iteration of the second loop of `apply_changes`. -/
def applyCreate (bevy : BevySchema ε κ V) (create : EntitySnapshot) :
    Call (ApplyError ε) (Replica κ V) Unit := do
  let replica ← get
  let entity := replica.world.nextEntity
  set (Replica.mk replica.world.spawnEmpty (replica.entities.register create.id entity))
  create.components.forM fun component =>
    onWorld (bevy.insertComponentFields entity component.id component.fields)

/-- One iteration of the loop of `apply_delta_updates`. An entity that is not mapped is skipped. -/
def applyDeltaUpdate (bevy : BevySchema ε κ V) (update : DeltaUpdateEntity) :
    Call (ApplyError ε) (Replica κ V) Unit := do
  let replica ← get
  match replica.entities.entity update.id with
  | none => return
  | some entity =>
      update.components.forM fun component =>
        onWorld (bevy.applyComponentFields entity component.id component.fields)

/-- `apply_delta_updates`. -/
def applyDeltaUpdates (bevy : BevySchema ε κ V) (updates : List DeltaUpdateEntity) :
    Call (ApplyError ε) (Replica κ V) Unit :=
  updates.forM (applyDeltaUpdate bevy)

/-- `apply_changes`. -/
def applyChanges (bevy : BevySchema ε κ V) (creates : List EntitySnapshot)
    (destroys : List EntityId) (updates : List DeltaUpdateEntity) :
    Call (ApplyError ε) (Replica κ V) Unit := do
  destroys.forM applyDestroy
  creates.forM (applyCreate bevy)
  applyDeltaUpdates bevy updates

/-! ## What a client is left with -/

omit [DecidableEq κ]

theorem on_world_entities {α : Type} (x : Call (ApplyError ε) (World κ V) α)
    (replica : Replica κ V) :
    (onWorld x).after replica = ⟨x.after replica.world, replica.entities⟩ := after_focus

/-- A call on the world that succeeds. -/
theorem on_world_of_ok {α : Type} {x : Call (ApplyError ε) (World κ V) α} {replica : Replica κ V}
    {a : α} {world : World κ V} (h : x replica.world = .ok a world) :
    onWorld x replica = .ok a ⟨world, replica.entities⟩ := focus_of_ok h

/-- A loop of calls on the world. -/
theorem on_world_forM {α : Type} (f : α → Call (ApplyError ε) (World κ V) PUnit) (xs : List α)
    (replica : Replica κ V) :
    xs.forM (fun x => onWorld (f x)) replica = onWorld (xs.forM f) replica :=
  (@focus_forM (ApplyError ε) (Replica κ V) (World κ V) Replica.world Replica.withWorld
    (fun _ _ => rfl) (fun _ => rfl) (fun _ _ _ => rfl) α f xs replica).symm

/-- The world and the map without an entity, if it is mapped. -/
def Replica.destroy (replica : Replica κ V) (destroy : EntityId) : Replica κ V :=
  match replica.entities.entity destroy with
  | none => replica
  | some entity => ⟨replica.world.despawn entity, replica.entities.unregister destroy⟩

/-- The loop over the destroyed ids does not fail. -/
theorem apply_destroys_eq (destroys : List EntityId) (replica : Replica κ V) :
    destroys.forM (applyDestroy (ε := ε)) replica
      = .ok ⟨⟩ (destroys.foldl Replica.destroy replica) := by
  refine forM_eq_ok_foldl (fun destroy replica => ?_) destroys replica
  unfold applyDestroy Replica.destroy
  rw [bind_apply, get_apply]
  dsimp only
  cases replica.entities.entity destroy <;> rfl

end Sdec.Bevy
