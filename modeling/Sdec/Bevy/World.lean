import Sdec.Bevy.EntityMap

/-!
# Worlds

A `World` of `bevy_ecs` as a finite map: the entities that live, each with its components by their
type, and a number for the next entity, which no live entity has yet.
-/

namespace Sdec.Bevy

/-- `World` of `bevy_ecs`: the components of the live entities, by type. -/
@[ext]
structure World (κ V : Type) where
  spawned : Nat
  entities : Entity → Option (κ → Option V)
  fresh : ∀ e, spawned ≤ e.index → entities e = none

namespace World

/-- `World::new`. -/
def new {κ V : Type} : World κ V := ⟨0, fun _ => none, fun _ _ => rfl⟩

variable {κ V : Type} (world : World κ V) (e : Entity)

/-- The component of a type that an entity has. -/
def get (k : κ) : Option V := (world.entities e).bind fun components => components k

/-- The entity that is spawned next. -/
def nextEntity : Entity := ⟨world.spawned⟩

theorem fresh_spawn : ∀ other : Entity, world.spawned + 1 ≤ other.index →
    Function.update world.entities world.nextEntity (some fun _ => none) other = none := by
  intro other hle
  rw [Function.update_of_ne, world.fresh other (Nat.le_of_succ_le hle)]
  intro heq
  rw [heq] at hle
  exact absurd hle (Nat.not_succ_le_self _)

/-- `World::spawn_empty`, which makes an entity without components. -/
def spawnEmpty : World κ V where
  spawned := world.spawned + 1
  entities := Function.update world.entities world.nextEntity (some fun _ => none)
  fresh := world.fresh_spawn

/-- What becomes of one entity keeps the others from being there before they are spawned. -/
theorem fresh_update {components : Option (κ → Option V)}
    (h : world.entities e = none → components = none) : ∀ other : Entity,
    world.spawned ≤ other.index → Function.update world.entities e components other = none := by
  intro other hle
  by_cases heq : other = e
  · rw [heq] at hle ⊢
    rw [Function.update_self]
    exact h (world.fresh e hle)
  · rw [Function.update_of_ne heq]
    exact world.fresh other hle

theorem fresh_despawn : ∀ other : Entity, world.spawned ≤ other.index →
    Function.update world.entities e none other = none :=
  world.fresh_update e fun _ => rfl

/-- `World::despawn`. It does nothing to an entity that is not there. -/
def despawn : World κ V where
  spawned := world.spawned
  entities := Function.update world.entities e none
  fresh := world.fresh_despawn e

variable [DecidableEq κ] (k : κ) (v : V)

theorem fresh_set : ∀ other : Entity, world.spawned ≤ other.index →
    Function.update world.entities e ((world.entities e).map fun components =>
      Function.update components k (some v)) other = none :=
  world.fresh_update e fun hnone => by rw [hnone, Option.map_none]

/-- The world after a component of a live entity is inserted or written. -/
def set : World κ V where
  spawned := world.spawned
  entities := Function.update world.entities e ((world.entities e).map fun components =>
    Function.update components k (some v))
  fresh := world.fresh_set e k v

/-! ## What the operations change -/

variable {world e k v} {other : Entity} {k' : κ}

omit [DecidableEq κ] in
theorem entities_next : world.entities world.nextEntity = none :=
  world.fresh _ (Nat.le_refl _)

omit [DecidableEq κ] in
/-- A live entity is not the one that is spawned next. -/
theorem ne_next (h : world.entities e ≠ none) : e ≠ world.nextEntity := by
  intro heq
  rw [heq] at h
  exact h entities_next

omit [DecidableEq κ] in
@[simp] theorem spawn_empty_next :
    world.spawnEmpty.entities world.nextEntity = some fun _ => none :=
  Function.update_self _ _ _

omit [DecidableEq κ] in
theorem spawn_empty_of_ne (h : other ≠ world.nextEntity) :
    world.spawnEmpty.entities other = world.entities other := Function.update_of_ne h _ _

omit [DecidableEq κ] in
theorem despawn_of_ne (h : other ≠ e) :
    (world.despawn e).entities other = world.entities other := Function.update_of_ne h _ _

theorem set_of_ne (h : other ≠ e) :
    (world.set e k v).entities other = world.entities other := Function.update_of_ne h _ _

theorem set_self {components : κ → Option V} (h : world.entities e = some components) :
    (world.set e k v).entities e = some (Function.update components k (some v)) := by
  show Function.update world.entities e _ e = _
  rw [Function.update_self, h]
  rfl

/-- A live entity stays alive. -/
theorem set_ne_none (h : world.entities other ≠ none) :
    (world.set e k v).entities other ≠ none := by
  by_cases heq : other = e
  · rw [heq] at h ⊢
    obtain ⟨components, hcomponents⟩ := Option.ne_none_iff_exists'.mp h
    rw [set_self hcomponents]
    exact Option.some_ne_none _
  · rwa [set_of_ne heq]

omit [DecidableEq κ] in
theorem get_of_entities {components : κ → Option V} (h : world.entities e = some components) :
    world.get e k = components k := by
  rw [get, h]
  rfl

omit [DecidableEq κ] in
/-- An entity with a component is alive. -/
theorem ne_none_of_get (h : world.get e k ≠ none) : world.entities e ≠ none := by
  intro hnone
  rw [get, hnone] at h
  exact h rfl

/-- The components after one is written. -/
theorem get_set (h : world.entities e ≠ none) :
    (world.set e k v).get other k'
      = if other = e ∧ k' = k then some v else world.get other k' := by
  obtain ⟨components, hcomponents⟩ := Option.ne_none_iff_exists'.mp h
  by_cases he : other = e
  · rw [he, get_of_entities (set_self hcomponents)]
    by_cases hk : k' = k
    · rw [hk, Function.update_self, if_pos ⟨rfl, rfl⟩]
    · rw [Function.update_of_ne hk, if_neg fun hboth => hk hboth.2, get_of_entities hcomponents]
  · rw [if_neg fun hboth => he hboth.1, get, set_of_ne he, get]

omit [DecidableEq κ] in
/-- Worlds with the same live entities and components are the same map. -/
theorem entities_eq_of_get {after : World κ V}
    (hlive : ∀ e, after.entities e = none ↔ world.entities e = none)
    (hget : ∀ e k, after.get e k = world.get e k) : after.entities = world.entities := by
  funext e
  cases hbefore : world.entities e with
  | none => exact (hlive e).mpr hbefore
  | some components =>
      cases hafter : after.entities e with
      | none =>
          rw [(hlive e).mp hafter] at hbefore
          cases hbefore
      | some components' =>
          refine congrArg some (funext fun k => ?_)
          rw [← get_of_entities hafter, hget, get_of_entities hbefore]

end World

end Sdec.Bevy
